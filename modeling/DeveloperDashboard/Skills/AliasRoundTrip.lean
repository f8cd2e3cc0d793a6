import DeveloperDashboard.Skills.AliasReading

namespace DeveloperDashboard.Skills

open Library Perl Config

/-!
# Saved aliases are read back

A saved alias changes one section of one file.  Every other section that is
read stays as it is, and no section that is read later has the same name; so
reading gives the saved value for its name and what it gave before for others.
-/

variable {segments : List Text}

namespace AliasConfig

variable {Content : Type} {read : AliasDomain}

theorem fileAt_congr
    (config : AliasConfig Content) {location other : WriteLocation}
    (sameFile : other.file = location.file) :
    config.fileAt other = config.fileAt location := by
  cases location with
  | skill dir remaining =>
    cases other with
    | skill otherDir _ =>
      rw [WriteLocation.file, WriteLocation.file,
        Option.some.injEq] at sameFile
      rw [fileAt, fileAt, sameFile]
    | global _ => contradiction
  | global remaining =>
    cases other with
    | skill otherDir _ => contradiction
    | global _ => rfl

theorem fileAt_writeFile
    (config : AliasConfig Content) (location other : WriteLocation)
    (file : ConfigHash) :
    (config.writeFile location file).fileAt other =
      if other.file = location.file then file
      else config.fileAt other := by
  cases location with
  | skill dir remaining =>
    cases other with
    | skill otherDir _ =>
      rw [fileAt, fileAt, writeFile]
      dsimp only
      by_cases same : dir = otherDir
      · subst same
        rw [Entries.lookup_store_self, WriteLocation.file,
          WriteLocation.file, if_pos rfl, Option.getD_some]
      · rw [Entries.lookup_store_of_ne _ same, if_neg]
        exact fun files => same (Option.some.inj files).symm
    | global _ => rw [if_neg (by simp [WriteLocation.file])]; rfl
  | global remaining =>
    cases other with
    | skill otherDir _ => rw [if_neg (by simp [WriteLocation.file])]; rfl
    | global _ => rfl

structure EditedAlias
    (domain : AliasDomain) (location : WriteLocation) (name : String)
    (value : Option JsonValue) (config after : AliasConfig Content) :
    Prop where
  paths : after.paths = config.paths
  home : after.home = config.home
  inherited : after.inherited = config.inherited
  repo : after.repo = config.repo
  file :
    EditsAt (location.sections domain.key) (config.fileAt location)
      (after.fileAt location)
  others :
    ∀ other, other.file ≠ location.file →
      after.fileAt other = config.fileAt other
  stored :
    ∀ other,
      (after.storedAt domain location).lookup other =
        if other = name then value
        else (config.storedAt domain location).lookup other
  elsewhere :
    ∀ dir, location.file ≠ some dir →
      after.skillConfigs.lookup dir = config.skillConfigs.lookup dir

section

variable {domain : AliasDomain} {location : WriteLocation} {name : String}
variable {value : Option JsonValue} {config after : AliasConfig Content}

theorem editedAlias_writeFile {file : ConfigHash}
    (edits :
      EditsAt (location.sections domain.key) (config.fileAt location) file)
    (stored :
      ∀ other,
        (readAt (location.sections domain.key) file).lookup other =
          if other = name then value
          else (config.storedAt domain location).lookup other) :
    EditedAlias domain location name value config
      (config.writeFile location file) := by
  have written : (config.writeFile location file).fileAt location = file :=
    (fileAt_writeFile ..).trans (if_pos rfl)
  refine ⟨?_, ?_, ?_, ?_, ?_, ?_, ?_, ?_⟩
  · cases location <;> rfl
  · cases location <;> rfl
  · cases location <;> rfl
  · cases location <;> rfl
  · rw [written]
    exact edits
  · intro other different
    rw [fileAt_writeFile, if_neg different]
  · intro other
    rw [storedAt, written]
    exact stored other
  · intro dir different
    cases location with
    | skill fileDir _ =>
      refine Entries.lookup_store_of_ne _ (fun same => different ?_) _
      exact congrArg some same
    | global _ => rfl

theorem sections_ne_nil (location : WriteLocation) (key : String) :
    location.sections key ≠ [] := by
  cases location <;> simp [WriteLocation.sections]

theorem exists_saveSkillAlias
    {segments : List Text} {aliasName : Text} {path : String}
    (segments_ne : segments ≠ []) (aliasName_ne : aliasName ≠ [])
    (path_ne : path ≠ "")
    (located : config.paths.skillConfigWriteLocation segments = some location)
    (options : AliasOptions) :
    ∃ saved,
      config.saveSkillAlias domain segments aliasName path options =
          some saved ∧
        EditedAlias domain location (String.ofList aliasName)
          (some (storedAlias config.home path options)) config saved := by
  have nonempty := sections_ne_nil location domain.key
  let edit (aliases : ConfigHash) : ConfigHash :=
    aliases.store (String.ofList aliasName)
      (storedAlias config.home path options)
  refine ⟨_, ?_, editedAlias_writeFile
    (editsAt_editCreating edit nonempty (config.fileAt location)) ?_⟩
  · rw [saveSkillAlias, if_neg segments_ne, if_neg aliasName_ne,
      if_neg path_ne, located]
    rfl
  · intro other
    rw [readAt_editCreating]
    split
    · next same => rw [same, Entries.lookup_store_self]
    · next different =>
        exact Entries.lookup_store_of_ne _ (Ne.symm different) _

theorem exists_removeSkillAlias {segments : List Text} {aliasName : Text}
    (segments_ne : segments ≠ []) (aliasName_ne : aliasName ≠ [])
    (located :
      config.paths.skillConfigWriteLocation segments = some location) :
    ∃ removed,
      config.removeSkillAlias domain segments aliasName = some removed ∧
        EditedAlias domain location (String.ofList aliasName) none config
          removed := by
  have written :
      EditedAlias domain location (String.ofList aliasName) none config
        (config.writeFile location
          (editExisting (Entries.remove · (String.ofList aliasName))
            (location.sections domain.key) (config.fileAt location))) :=
    editedAlias_writeFile
      (editsAt_editExisting _ (sections_ne_nil _ _) _)
      (lookup_readAt_remove _ _ _)
  rw [removeSkillAlias, if_neg segments_ne, if_neg aliasName_ne, located]
  cases location with
  | global remaining => exact ⟨_, rfl, written⟩
  | skill dir remaining =>
    by_cases missing : (config.skillConfigs.lookup dir).isNone = true
    · refine ⟨config, if_pos missing, rfl, rfl, rfl, rfl, .refl _ _,
        fun _ _ => rfl, ?_, fun _ _ => rfl⟩
      intro other
      have nothing :
          config.storedAt domain (.skill dir remaining) = [] := by
        rw [storedAt, fileAt, Option.isNone_iff_eq_none.mp missing]
        exact readAt_nil _
      rw [nothing, Entries.lookup_nil, ite_self]
    · exact ⟨_, if_neg missing, written⟩

theorem EditedAlias.sameShipped
    (edited : EditedAlias domain location name value config after)
    (nonempty : location.remaining ≠ [])
    (free : read.key.toList ∉ location.inner) :
    SameShipped read config after := by
  refine ⟨edited.paths, edited.home, edited.inherited, edited.repo, ?_⟩
  intro other
  by_cases sameFile : other.file = location.file
  · rw [fileAt_congr after sameFile, fileAt_congr config sameFile]
    exact edited.file.top _ (WriteLocation.head_sections_ne nonempty free)
  · rw [edited.others other sameFile]

/-- The aliases that are stored for other skills stay. -/
theorem EditedAlias.overrides_eq
    (edited : EditedAlias domain location name value config after)
    (apart : PathRegistry.RootsApart config.paths)
    (located :
      config.paths.skillConfigWriteLocation segments = some location)
    (free : read.key.toList ∉ location.inner)
    (noNested :
      ∀ chain,
        ¬ PathRegistry.InstalledChain config.paths
          (segments ++ [domain.key.toList]) chain)
    {entry : PathRegistry.NestedEntry}
    (member :
      entry ∈
        config.paths.nestedSkillEntries PathRegistry.allWithLocations)
    (differ : ¬ (entry.segments = segments ∧ read.key = domain.key)) :
    after.overrides read entry = config.overrides read entry := by
  have locatedEntry := PathRegistry.location_of_mem_entries member
  unfold overrides
  cases found : entry.configWriteLocation with
  | none => rfl
  | some other =>
    rw [found] at locatedEntry
    dsimp only
    unfold storedAt
    by_cases sameFile : other.file = location.file
    · obtain ⟨notBelow, notAbove⟩ :=
        apart.apart_sections located locatedEntry.symm sameFile free
          noNested differ
      rw [fileAt_congr after sameFile, fileAt_congr config sameFile]
      exact edited.file.beside _ notBelow notAbove
    · rw [edited.others other sameFile]

end

theorem key_injective : Function.Injective AliasDomain.key := by
  intro one other same
  cases one <;> cases other
  · rfl
  · exact absurd same (by decide)
  · exact absurd same (by decide)
  · rfl

theorem lookup_aliases_of_stored {config one other : AliasConfig Content}
    (domain : AliasDomain) {location : WriteLocation} {wanted : String}
    (located :
      config.paths.skillConfigWriteLocation segments = some location)
    (paths : one.paths = config.paths) (shipped : SameShipped read one other)
    (beside :
      ∀ entry ∈
          config.paths.nestedSkillEntries PathRegistry.allWithLocations,
        ¬ (entry.segments = segments ∧ read.key = domain.key) →
          other.overrides read entry = one.overrides read entry)
    (stored :
      ∀ key, qualifiedName segments key = wanted → read = domain →
        (other.storedAt domain location).lookup key =
          (one.storedAt domain location).lookup key) :
    (other.aliases read).lookup wanted =
      (one.aliases read).lookup wanted := by
  refine lookup_aliases_congr shipped ?_
  rw [paths]
  intro entry member key _ isWanted
  by_cases isTarget : entry.segments = segments ∧ read.key = domain.key
  · obtain ⟨rfl, sameKey⟩ := isTarget
    obtain rfl := key_injective sameKey
    have found := PathRegistry.location_of_mem_entries member
    rw [located] at found
    unfold overrides
    rw [found]
    exact stored key isWanted rfl
  · rw [beside entry member isTarget]

/-- An alias without `create` and `mode`. -/
def plainAlias : AliasOptions where
  create := false
  mode := ""

theorem not_installed_of_nil {paths : PathRegistry Content}
    {location : WriteLocation} (domain : AliasDomain)
    (located : paths.skillConfigWriteLocation segments = some location)
    (noNested :
      paths.nestedSkillDirChain (segments ++ [domain.key.toList]) = [])
    (chain : List Path) :
    ¬ PathRegistry.InstalledChain paths (segments ++ [domain.key.toList])
      chain := by
  intro installed
  obtain ⟨-, valid⟩ := PathRegistry.installed_of_location located
  have keyValid :
      (validatedPathSegments domain.key.toList).length = 1 := by
    cases domain <;> decide
  have allValid :
      PathRegistry.AllValid (segments ++ [domain.key.toList]) := by
    intro segment member
    rcases List.mem_append.mp member with before | last
    · exact valid segment before
    · rw [List.mem_singleton.mp last]
      exact keyValid
  rw [installed.nestedSkillDirChain_eq allValid] at noNested
  have sameLength := installed.length_eq.1
  rw [noNested, List.length_append] at sameLength
  exact absurd sameLength (Nat.ne_of_lt (Nat.succ_pos _))

theorem file_ne_own {paths : PathRegistry Content}
    {location : WriteLocation} {dir : Path}
    (located : paths.skillConfigWriteLocation segments = some location)
    (own : (paths.nestedSkillDirChain segments).getLast? = some dir) :
    location.file ≠ some dir := by
  intro isOwn
  obtain ⟨installed, -⟩ := PathRegistry.installed_of_location located
  obtain ⟨node, visited, sameSegments, sameDir⟩ :=
    PathRegistry.exists_node_iff.mpr ⟨_, installed, own⟩
  obtain ⟨chain, carries⟩ := PathRegistry.exists_carries visited
  cases location with
  | skill parent remaining =>
    have carried := carries.nodeLocation_eq
    rw [sameSegments, located] at carried
    refine (carries.location_above carried).1 ?_
    rw [sameDir]
    exact Option.some.inj isOwn
  | global remaining => contradiction

/--
A saved alias of a skill is read back and changes no other one, and the file
of the skill stays as it is.  After its removal the aliases are those without
a stored value, which are the ones before where none was stored.  For this no
skill on the way, and none below the skill, is named like the key of the
aliases, and no skills root is the folder of the nested skills of a skill.
-/
theorem saveNamedAlias_readBack
    (config : AliasConfig Content) (domain : AliasDomain)
    {name aliasName : Text} {segments : List Text}
    {location : WriteLocation} {path : String}
    (split : splitSkillAliasName name = some (segments, aliasName))
    (located :
      config.paths.skillConfigWriteLocation segments = some location)
    (absolute : path.toList.head? = some '/')
    (apart : PathRegistry.RootsApart config.paths)
    (noNested :
      config.paths.nestedSkillDirChain (segments ++ [domain.key.toList]) =
        []) :
    ∃ saved removed without,
      config.saveNamedAlias domain name path plainAlias = some saved ∧
        saved.removeNamedAlias domain name = some removed ∧
        config.removeNamedAlias domain name = some without ∧
        (∀ dir,
          (config.paths.nestedSkillDirChain segments).getLast? = some dir →
            saved.skillConfigs.lookup dir =
                config.skillConfigs.lookup dir ∧
              removed.skillConfigs.lookup dir =
                config.skillConfigs.lookup dir) ∧
        ∀ read : AliasDomain, read.key.toList ∉ location.inner →
          ∀ wanted,
            (saved.aliases read).lookup wanted =
                (if read = domain ∧ wanted = String.ofList name then
                  some (.string path)
                else (config.aliases read).lookup wanted) ∧
              (removed.aliases read).lookup wanted =
                (without.aliases read).lookup wanted ∧
              (¬ (read = domain ∧ wanted = String.ofList name) ∨
                  (config.storedAt domain location).lookup
                    (String.ofList aliasName) = none →
                (removed.aliases read).lookup wanted =
                  (config.aliases read).lookup wanted) := by
  have parts := splitName_of_split split
  have path_ne : path ≠ "" := by
    rintro rfl
    contradiction
  have absent := not_installed_of_nil domain located noNested
  obtain ⟨-, -, -, nonempty⟩ := PathRegistry.exists_base located
  obtain ⟨saved, saves, savedEdit⟩ :=
    @exists_saveSkillAlias _ domain _ config _ aliasName path
      parts.segments_ne parts.aliasName_ne path_ne located plainAlias
  have locatedSaved :
      saved.paths.skillConfigWriteLocation segments = some location := by
    rw [savedEdit.paths]
    exact located
  obtain ⟨removed, removes, removedEdit⟩ :=
    @exists_removeSkillAlias _ domain _ saved _ aliasName
      parts.segments_ne parts.aliasName_ne locatedSaved
  obtain ⟨without, drops, withoutEdit⟩ :=
    @exists_removeSkillAlias _ domain _ config _ aliasName
      parts.segments_ne parts.aliasName_ne located
  refine ⟨saved, removed, without, ?_, ?_, ?_, ?_, ?_⟩
  · rw [saveNamedAlias, split]
    exact saves
  · rw [removeNamedAlias, split]
    exact removes
  · rw [removeNamedAlias, split]
    exact drops
  · intro dir own
    have different := file_ne_own located own
    exact ⟨savedEdit.elsewhere dir different,
      (removedEdit.elsewhere dir different).trans
        (savedEdit.elsewhere dir different)⟩
  · intro read free wanted
    have toSaved := savedEdit.sameShipped nonempty free
    have toRemoved := removedEdit.sameShipped nonempty free
    have toWithout := withoutEdit.sameShipped nonempty free
    have besideSaved :
        ∀ entry ∈
            config.paths.nestedSkillEntries PathRegistry.allWithLocations,
          ¬ (entry.segments = segments ∧ read.key = domain.key) →
            saved.overrides read entry = config.overrides read entry :=
      fun _ member =>
        savedEdit.overrides_eq apart located free absent member
    have besideWithout :
        ∀ entry ∈
            config.paths.nestedSkillEntries PathRegistry.allWithLocations,
          ¬ (entry.segments = segments ∧ read.key = domain.key) →
            without.overrides read entry = config.overrides read entry :=
      fun _ member =>
        withoutEdit.overrides_eq apart located free absent member
    have besideRemoved :
        ∀ entry ∈
            config.paths.nestedSkillEntries PathRegistry.allWithLocations,
          ¬ (entry.segments = segments ∧ read.key = domain.key) →
            removed.overrides read entry = saved.overrides read entry := by
      rw [← savedEdit.paths] at apart absent ⊢
      exact fun _ member =>
        removedEdit.overrides_eq apart locatedSaved free absent member
    have sameRemoved :
        (removed.aliases read).lookup wanted =
          (without.aliases read).lookup wanted := by
      refine lookup_aliases_of_stored domain located withoutEdit.paths
        (toWithout.symm.trans (toSaved.trans toRemoved)) ?_ ?_
      · intro entry member other
        rw [besideRemoved entry member other,
          besideSaved entry member other, besideWithout entry member other]
      · rintro key - -
        rw [removedEdit.stored, withoutEdit.stored, savedEdit.stored]
        split <;> rfl
    refine ⟨?_, sameRemoved, fun untouched => ?_⟩
    · by_cases isName : read = domain ∧ wanted = String.ofList name
      · obtain ⟨rfl, rfl⟩ := isName
        have stored :=
          (savedEdit.stored (String.ofList aliasName)).trans (if_pos rfl)
        rw [if_pos ⟨rfl, rfl⟩,
          lookup_aliases_of_override parts locatedSaved stored,
          savedEdit.home]
        exact congrArg (fun text => some (JsonValue.string text))
          (expandConfigPath_normalizeHomePath absolute)
      · rw [if_neg isName]
        refine lookup_aliases_of_stored domain located rfl toSaved besideSaved ?_
        intro key isWanted sameDomain
        rw [savedEdit.stored, if_neg]
        rintro rfl
        exact isName ⟨sameDomain, isWanted.symm.trans parts.joined⟩
    · rw [sameRemoved]
      refine lookup_aliases_of_stored domain located rfl toWithout besideWithout ?_
      intro key isWanted sameDomain
      rw [withoutEdit.stored]
      split
      · next isAlias =>
          rw [isAlias] at isWanted ⊢
          rcases untouched with other | nothing
          · exact absurd
              ⟨sameDomain, isWanted.symm.trans parts.joined⟩ other
          · exact nothing.symm
      · rfl

def noFiles (paths : PathRegistry Unit) : AliasConfig Unit where
  paths := paths
  home := "/home/u"
  skillConfigs := []
  writable := none
  inherited := []
  repo := []

def folderEntries (folders : List Path) :
    Entries Path (FileNode Unit) :=
  folders.map fun folder => (folder, .folder)

/-- A skill `foo` with a nested skill `bar`. -/
def nestedPaths : PathRegistry Unit where
  tree :=
    { entries :=
        folderEntries
          [[], [['w']], [['w'], "foo".toList],
            [['w'], "foo".toList, "skills".toList],
            [['w'], "foo".toList, "skills".toList, "bar".toList]]
      closed := by decide }
  skillsRoots := [[['w']]]

theorem saveNamedAlias_readBack_nested :
    ∃ saved,
      (noFiles nestedPaths).saveNamedAlias .path
            "foo.bar.x".toList "/srv/x" plainAlias = some saved ∧
        (saved.aliases .path).lookup "foo.bar.x" =
          some (.string "/srv/x") := by
  obtain ⟨saved, removed, without, saves, -, -, -, reads⟩ :=
    saveNamedAlias_readBack (noFiles nestedPaths) .path
      (by decide :
        splitSkillAliasName "foo.bar.x".toList =
          some (["foo".toList, "bar".toList], ['x']))
      (by decide :
        nestedPaths.skillConfigWriteLocation
            ["foo".toList, "bar".toList] =
          some (.skill [['w'], "foo".toList] ["bar".toList]))
      (by decide : "/srv/x".toList.head? = some '/')
      (PathRegistry.rootsApart_of_singleton rfl)
      (by decide)
  exact ⟨saved, saves,
    ((reads .path (by decide) "foo.bar.x").1).trans (if_pos (by decide))⟩

/-- A skill `foo` with a nested skill named like the path aliases. -/
def sectionPaths : PathRegistry Unit where
  tree :=
    { entries :=
        folderEntries
          [[], [['w']], [['w'], "foo".toList],
            [['w'], "foo".toList, "skills".toList],
            [['w'], "foo".toList, "skills".toList, "path_aliases".toList]]
      closed := by decide }
  skillsRoots := [[['w']]]

/-- A skills root that holds the nested skills of a skill of another one. -/
def innerRootPaths : PathRegistry Unit where
  tree :=
    { entries :=
        folderEntries
          [[], [['w']], [['w'], ".developer-dashboard".toList],
            [['w'], ".developer-dashboard".toList, "skills".toList],
            [['w'], ".developer-dashboard".toList, "skills".toList,
              "bar".toList],
            [['w'], ".developer-dashboard".toList, "skills".toList,
              "bar".toList, "skills".toList],
            [['w'], ".developer-dashboard".toList, "skills".toList,
              "bar".toList, "skills".toList, "baz".toList]]
      closed := by decide }
  skillsRoots :=
    [[['w'], ".developer-dashboard".toList, "skills".toList], [['w']]]

/--
An alias that was saved before is not restored by a removal; and another alias
appears where a nested skill is named like the path aliases, or where a skill
is reached by two lists of segments.
-/
theorem saveNamedAlias_changes_others :
    (∃ first second removed,
      (noFiles nestedPaths).saveNamedAlias .path "foo.x".toList "/a"
            plainAlias = some first ∧
        first.saveNamedAlias .path "foo.x".toList "/b" plainAlias =
          some second ∧
        second.removeNamedAlias .path "foo.x".toList = some removed ∧
        (first.aliases .path).lookup "foo.x" = some (.string "/a") ∧
        (removed.aliases .path).lookup "foo.x" = none) ∧
      (∃ saved, (noFiles sectionPaths).saveNamedAlias .path
              "foo.path_aliases.x".toList "/a" plainAlias = some saved ∧
          ((noFiles sectionPaths).aliases .path).lookup
              "foo.path_aliases" = none ∧
          ((saved.aliases .path).lookup "foo.path_aliases").isSome) ∧
      ∃ saved,
        (noFiles innerRootPaths).saveNamedAlias .path "bar.baz.x".toList
              "/a" plainAlias = some saved ∧
          ((noFiles innerRootPaths).aliases .path).lookup
              ".developer-dashboard.bar.baz.x" = none ∧
          (saved.aliases .path).lookup ".developer-dashboard.bar.baz.x" =
            some (.string "/a") := by
  have restored :
      (((noFiles nestedPaths).saveNamedAlias .path "foo.x".toList "/a"
          plainAlias).bind fun first =>
        (first.saveNamedAlias .path "foo.x".toList "/b" plainAlias).bind
          fun second =>
            (second.removeNamedAlias .path "foo.x".toList).map
              fun removed =>
                ((first.aliases .path).lookup "foo.x",
                  (removed.aliases .path).lookup "foo.x")) =
        some (some (.string "/a"), none) := by
    rfl
  have inSection :
      ((noFiles sectionPaths).saveNamedAlias .path
          "foo.path_aliases.x".toList "/a" plainAlias).map
        (fun saved =>
          ((saved.aliases .path).lookup "foo.path_aliases").isSome) =
        some true := by
    decide +kernel
  have inOther :
      ((noFiles innerRootPaths).saveNamedAlias .path "bar.baz.x".toList
          "/a" plainAlias).map
        (fun saved =>
          (saved.aliases .path).lookup ".developer-dashboard.bar.baz.x") =
        some (some (.string "/a")) := by
    rfl
  refine ⟨?_, ?_, ?_⟩
  · obtain ⟨first, saves, more⟩ := Option.bind_eq_some_iff.mp restored
    obtain ⟨second, savesAgain, last⟩ := Option.bind_eq_some_iff.mp more
    obtain ⟨removed, removes, values⟩ := Option.map_eq_some_iff.mp last
    rw [Prod.mk.injEq] at values
    exact ⟨first, second, removed, saves, savesAgain, removes, values⟩
  · obtain ⟨saved, saves, found⟩ := Option.map_eq_some_iff.mp inSection
    exact ⟨saved, saves, by rfl, found⟩
  · obtain ⟨saved, saves, found⟩ := Option.map_eq_some_iff.mp inOther
    exact ⟨saved, saves, by rfl, found⟩

end AliasConfig

end DeveloperDashboard.Skills
