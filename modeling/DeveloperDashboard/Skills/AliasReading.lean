import DeveloperDashboard.Skills.AliasSections

namespace DeveloperDashboard.Skills

open Library Perl Config

/-!
# Reading aliases

An alias depends on what is shipped at the top of the files, and on the stored
sections of the skills whose names it can be; of these the deepest counts.
-/

theorem qualifiedName_injective (segments : List Text) :
    Function.Injective (qualifiedName segments) := by
  intro one other same
  have joined := String.ofList_injective same
  clear same
  rw [← String.toList_inj]
  induction segments with
  | nil => simpa using joined
  | cons segment rest ih =>
    rw [List.cons_append, List.cons_append,
      List.intercalate_cons_of_ne_nil (by simp),
      List.intercalate_cons_of_ne_nil (by simp)] at joined
    exact ih (List.append_cancel_left joined)

structure SplitName (name : Text) (segments : List Text)
    (aliasName : Text) : Prop where
  segments_ne : segments ≠ []
  aliasName_ne : aliasName ≠ []
  dotless : ∀ part ∈ segments ++ [aliasName], '.' ∉ part
  joined :
    qualifiedName segments (String.ofList aliasName) = String.ofList name

variable {segments : List Text}

/-- What `split_skill_alias_name` returns. -/
theorem splitName_of_split {name aliasName : Text}
    (split : splitSkillAliasName name = some (segments, aliasName)) :
    SplitName name segments aliasName := by
  unfold splitSkillAliasName at split
  split at split
  · contradiction
  · next dotted =>
      dsimp only at split
      split at split
      · contradiction
      · next full =>
          rw [Option.some.injEq, Prod.mk.injEq] at split
          obtain ⟨rfl, rfl⟩ := split
          have nonempty : name.splitOn '.' ≠ [] := List.splitOn_ne_nil _ _
          have parts :
              (name.splitOn '.').dropLast ++
                  [(name.splitOn '.').getLast?.getD []] =
                name.splitOn '.' := by
            rw [List.getLast?_eq_some_getLast nonempty, Option.getD_some]
            exact List.dropLast_append_getLast nonempty
          have dotless : ∀ part ∈ name.splitOn '.', '.' ∉ part :=
            fun _ => Joined.not_mem_of_mem_splitOn
          constructor
          · intro single
            rw [single, List.nil_append] at parts
            have whole : ['.'].intercalate (name.splitOn '.') = name :=
              List.intercalate_splitOn '.'
            rw [← parts, List.intercalate_singleton] at whole
            refine dotless _ ?_ (not_not.mp dotted)
            rw [← parts, whole]
            exact List.mem_cons_self
          · intro empty
            refine full (List.any_eq_true.mpr ⟨[], ?_, decide_eq_true rfl⟩)
            rw [← parts, empty]
            exact List.mem_append_right _ List.mem_cons_self
          · rw [parts]
            exact dotless
          · rw [qualifiedName, String.toList_ofList, parts,
              List.intercalate_splitOn]

theorem SplitName.ne_of_segments_ne
    {name aliasName : Text} {others : List Text}
    (split : SplitName name segments aliasName)
    (deeper : segments.length ≤ others.length)
    (differ : others ≠ segments) (other : String) :
    qualifiedName others other ≠ String.ofList name := by
  intro same
  rw [← split.joined] at same
  have parts : others ++ [other.toList] = segments ++ [aliasName] := by
    refine Joined.eq_of_intercalate_eq split.dotless
      (List.append_ne_nil_of_right_ne_nil _ (List.cons_ne_nil _ _)) ?_ ?_
    · simpa using deeper
    · refine String.ofList_injective ?_
      simpa [qualifiedName] using same
  exact differ (List.append_inj' parts rfl).1

theorem expandConfigPath_home (home : String) (rest : List Char) :
    expandConfigPath home ("$HOME/" ++ String.ofList rest) =
      home ++ String.ofList ('/' :: rest) := by
  have chars :
      ("$HOME/" ++ String.ofList rest).toList =
        "$HOME/".toList ++ rest := by
    rw [String.toList_append, @String.toList_ofList rest]
  have ne_of_short {text : String} (short : text.length < 6) :
      "$HOME/" ++ String.ofList rest ≠ text := by
    rintro rfl
    rw [← String.length_toList, chars, List.length_append] at short
    exact absurd short (Nat.not_lt_of_le (Nat.le_add_right 6 _))
  rw [expandConfigPath, if_neg (ne_of_short (by decide)),
    if_neg (ne_of_short (by decide)), chars,
    if_pos (List.isPrefixOf_iff_prefix.mpr (List.prefix_append _ _))]
  rfl

/-- The path of an alias is read as it was given. -/
theorem expandConfigPath_normalizeHomePath
    {home path : String} (absolute : path.toList.head? = some '/') :
    expandConfigPath home (normalizeHomePath home path) = path := by
  have nonempty : path ≠ "" := by
    rintro rfl
    contradiction
  have unchanged : expandConfigPath home path = path := by
    obtain ⟨rest, chars⟩ : ∃ rest, path.toList = '/' :: rest := by
      cases chars : path.toList with
      | nil =>
        rw [chars] at absolute
        contradiction
      | cons first rest =>
        rw [chars, List.head?_cons, Option.some.injEq] at absolute
        exact ⟨rest, by rw [absolute]⟩
    have notHome : path ≠ "$HOME" := by
      rintro rfl
      contradiction
    rw [expandConfigPath, if_neg nonempty, if_neg notHome, chars]
    rfl
  unfold normalizeHomePath
  split
  · exact unchanged
  · split
    · next isHome => exact isHome.symm
    · split
      · next below =>
          obtain ⟨rest, chars⟩ := List.isPrefixOf_iff_prefix.mp below
          have whole : path = home ++ String.ofList ('/' :: rest) := by
            rw [← String.toList_inj, ← chars, String.toList_append,
              String.toList_append, @String.toList_ofList ('/' :: rest),
              List.append_assoc]
            rfl
          have dropped :
              path.toList.drop (home.length + 1) = rest := by
            rw [← chars, ← String.length_toList]
            exact List.drop_left' (by simp)
          rw [dropped, expandConfigPath_home, whole]
      · exact unchanged

theorem foldl_some_const {Item Value : Type}
    {value : Item → Value} {result : Value} {items : List Item}
    (constant : ∀ item ∈ items, value item = result) (found : Option Value) :
    items.foldl (fun _ item => some (value item)) found =
      if items = [] then found else some result := by
  induction items generalizing found with
  | nil => rfl
  | cons item rest ih =>
    obtain ⟨here, later⟩ := List.forall_mem_cons.mp constant
    rw [List.foldl_cons, ih later, here, if_neg (List.cons_ne_nil _ _)]
    split <;> rfl

section

variable {qualified : String → String} {aliases leaf : ConfigHash}
variable {wanted : String}

theorem lookup_readSection :
    (readSection qualified aliases leaf).lookup wanted =
      (((leaf.filter fun entry => decide (entry.1 ≠ "")).filter
        fun entry => decide (qualified entry.1 = wanted)).foldl
          (fun _ entry => some ((leaf.lookup entry.1).getD entry.2))
          (aliases.lookup wanted)) :=
  Entries.lookup_foldl_upsert
    (fun entry : String × JsonValue => qualified entry.1)
    (fun entry _ => (leaf.lookup entry.1).getD entry.2) _ _ _

theorem lookup_readSection_self (injective : Function.Injective qualified)
    {name : String} (nonempty : name ≠ "") :
    (readSection qualified aliases leaf).lookup (qualified name) =
      (leaf.lookup name).or (aliases.lookup (qualified name)) := by
  rw [lookup_readSection]
  cases found : leaf.lookup name with
  | none =>
    have none_ :
        ((leaf.filter fun entry => decide (entry.1 ≠ "")).filter
          fun entry => decide (qualified entry.1 = qualified name)) =
          [] := by
      rw [List.filter_eq_nil_iff]
      intro entry member same
      have isName := injective (of_decide_eq_true same)
      refine (Entries.lookup_eq_none_iff _ _).mp found ?_
      rw [← isName]
      exact List.mem_map_of_mem (List.mem_filter.mp member).1
    rw [none_]
    rfl
  | some value =>
    have some_ :
        (name, value) ∈
          (leaf.filter fun entry => decide (entry.1 ≠ "")).filter
            fun entry =>
              decide (qualified entry.1 = qualified name) := by
      refine List.mem_filter.mpr
        ⟨List.mem_filter.mpr ⟨Entries.mem_of_lookup found, ?_⟩, ?_⟩
      · exact decide_eq_true nonempty
      · exact decide_eq_true rfl
    have constant :
        ∀ entry ∈
          (leaf.filter fun entry => decide (entry.1 ≠ "")).filter
            fun entry => decide (qualified entry.1 = qualified name),
          (leaf.lookup entry.1).getD entry.2 = value := by
      intro entry member
      have isName := injective
        (of_decide_eq_true (List.mem_filter.mp member).2)
      rw [isName, found, Option.getD_some]
    rw [foldl_some_const constant, if_neg (List.ne_nil_of_mem some_)]
    rfl

theorem lookup_readSection_of_ne
    (differ : ∀ name, name ≠ "" → qualified name ≠ wanted) :
    (readSection qualified aliases leaf).lookup wanted =
      aliases.lookup wanted := by
  have none_ :
      ((leaf.filter fun entry => decide (entry.1 ≠ "")).filter
        fun entry => decide (qualified entry.1 = wanted)) = [] := by
    rw [List.filter_eq_nil_iff]
    intro entry member same
    have nonempty := of_decide_eq_true (List.mem_filter.mp member).2
    exact differ entry.1 nonempty (of_decide_eq_true same)
  rw [lookup_readSection, none_]
  rfl

theorem lookup_readSection_congr (injective : Function.Injective qualified)
    {otherAliases otherLeaf : ConfigHash}
    (before : otherAliases.lookup wanted = aliases.lookup wanted)
    (agree :
      ∀ name, name ≠ "" → qualified name = wanted →
        otherLeaf.lookup name = leaf.lookup name) :
    (readSection qualified otherAliases otherLeaf).lookup wanted =
      (readSection qualified aliases leaf).lookup wanted := by
  by_cases isName : ∃ name, name ≠ "" ∧ qualified name = wanted
  · obtain ⟨name, nonempty, rfl⟩ := isName
    rw [lookup_readSection_self injective nonempty,
      lookup_readSection_self injective nonempty, before,
      agree name nonempty rfl]
  · have differ : ∀ name, name ≠ "" → qualified name ≠ wanted :=
      fun name nonempty same => isName ⟨name, nonempty, same⟩
    rw [lookup_readSection_of_ne differ, lookup_readSection_of_ne differ,
      before]

end

theorem namedIdentity_key (read : AliasDomain) :
    namedIdentity read.key = none := by
  cases read <;> decide

namespace AliasConfig

variable {Content : Type} {one other : AliasConfig Content}
variable {read : AliasDomain}

theorem lookup_skillConfigHash
    (config : AliasConfig Content) (layers : List Path)
    (read : AliasDomain) :
    (config.skillConfigHash layers (selectedKey read)).lookup read.key =
      (layers.filterMap fun dir =>
        (config.fileAt (.skill dir [])).lookup read.key).foldl
          (fun found value =>
            some (mergeField mergeHashes read.key found value))
          none := by
  have selected (found : ConfigHash) :
      (selectKey (selectedKey read) found).lookup read.key =
        found.lookup read.key := by
    cases read with
    | path =>
      unfold selectedKey selectKey
      dsimp only
      cases value : found.lookup AliasDomain.path.key <;>
        simp [Entries.lookup]
    | file => rfl
  have inFile (dir : Path) :
      ((config.skillConfigs.lookup dir).bind fun found =>
          found.lookup read.key) =
        (config.fileAt (.skill dir [])).lookup read.key := by
    rw [fileAt]
    cases config.skillConfigs.lookup dir <;> rfl
  have folded :
      config.skillConfigHash layers (selectedKey read) =
        ((layers.filterMap config.skillConfigs.lookup).map
          (selectKey (selectedKey read))).foldl mergeHashes [] := by
    rw [List.foldl_map]
    rfl
  rw [folded, lookup_foldl_mergeHashes (namedIdentity_key read),
    List.filterMap_map, List.filterMap_filterMap]
  simp only [Function.comp_apply, selected, inFile]
  rfl

theorem shipped_eq (config : AliasConfig Content) (read : AliasDomain) :
    (config.skillConfigEntries (selectedKey read)).foldl
        (fun aliases entry =>
          readSection (shippedName entry.1) aliases
            (hashAt entry.2 read.key))
        [] =
      (config.paths.installedSkillEntries false
          config.paths.directoryInventory).foldl
        (fun aliases skill =>
          readSection (shippedName skill.skillName) aliases
            (hashAt
              (config.skillConfigHash skill.layers (selectedKey read))
              read.key))
        [] := by
  unfold skillConfigEntries
  generalize config.paths.installedSkillEntries false
    config.paths.directoryInventory = skills
  generalize ([] : ConfigHash) = aliases
  induction skills generalizing aliases with
  | nil => rfl
  | cons skill rest ih =>
    rw [List.filterMap_cons, List.foldl_cons]
    cases found :
        config.skillConfigHash skill.layers (selectedKey read) with
    | nil => exact ih aliases
    | cons entry others => exact ih _

structure SameShipped (read : AliasDomain)
    (one other : AliasConfig Content) : Prop where
  paths : other.paths = one.paths
  home : other.home = one.home
  inherited : other.inherited = one.inherited
  repo : other.repo = one.repo
  files :
    ∀ location,
      (other.fileAt location).lookup read.key =
        (one.fileAt location).lookup read.key

theorem SameShipped.trans {third : AliasConfig Content}
    (first : SameShipped read one other)
    (second : SameShipped read other third) :
    SameShipped read one third where
  paths := second.paths.trans first.paths
  home := second.home.trans first.home
  inherited := second.inherited.trans first.inherited
  repo := second.repo.trans first.repo
  files location := (second.files location).trans (first.files location)

theorem SameShipped.symm (same : SameShipped read one other) :
    SameShipped read other one where
  paths := same.paths.symm
  home := same.home.symm
  inherited := same.inherited.symm
  repo := same.repo.symm
  files location := (same.files location).symm

theorem SameShipped.hashAt_skillConfigHash
    (same : SameShipped read one other) (layers : List Path) :
    hashAt (other.skillConfigHash layers (selectedKey read)) read.key =
      hashAt (one.skillConfigHash layers (selectedKey read)) read.key := by
  refine hashAt_congr ?_
  simp only [lookup_skillConfigHash, same.files]

/-- The files of the global configuration give the same aliases. -/
theorem SameShipped.hashAt_merged (same : SameShipped read one other) :
    hashAt
        (merged (other.writable :: other.inherited)
          (other.skillFragments read) other.repo)
        read.key =
      hashAt
        (merged (one.writable :: one.inherited)
          (one.skillFragments read) one.repo)
        read.key := by
  have noFragment (config : AliasConfig Content) :
      (config.skillFragments read).filterMap
          (fun layer => layer.lookup read.key) = [] := by
    cases read with
    | path => rfl
    | file =>
      rw [List.filterMap_eq_nil_iff]
      intro fragment member
      obtain ⟨entry, -, rfl⟩ := List.mem_map.mp member
      refine (Entries.lookup_cons ..).trans (if_neg ?_)
      intro isKey
      have first := congrArg (fun key => key.toList.head?) isKey
      simp [AliasDomain.key] at first
  have layers (config : AliasConfig Content) :
      (ConfigFiles.layers
          (config.writable :: config.inherited)).filterMap
            (fun layer => layer.lookup read.key) =
        ((ConfigFiles.layers config.inherited).filterMap
            fun layer => layer.lookup read.key) ++
          ((config.fileAt (.global [])).lookup read.key).toList := by
    unfold ConfigFiles.layers fileAt
    rw [List.reverse_cons, List.filterMap_append, List.filterMap_append]
    cases config.writable with
    | none => rfl
    | some file => cases found : file.lookup read.key <;> simp [found]
  refine hashAt_congr ?_
  rw [merged_eq_layered, merged_eq_layered]
  refine lookup_layered_congr (namedIdentity_key read) ?_
  rw [List.filterMap_append, List.filterMap_append,
    List.filterMap_append, List.filterMap_append, layers, layers,
    noFragment, noFragment, same.files, same.inherited, same.repo]

theorem SameShipped.nestedDefaults (same : SameShipped read one other)
    (entry : PathRegistry.NestedEntry) :
    other.nestedDefaults read entry = one.nestedDefaults read entry := by
  have fromFile (config : AliasConfig Content) :
      config.nestedDefaults read entry =
        if entry.segments.length = 1 then []
        else hashAt (config.fileAt (.skill entry.dir [])) read.key := by
    rw [AliasConfig.nestedDefaults, fileAt]
    cases config.skillConfigs.lookup entry.dir with
    | none => rfl
    | some node => rfl
  rw [fromFile, fromFile, hashAt_congr (same.files _)]

theorem lookup_foldl_readSection_congr {wanted : String}
    {entries : List PathRegistry.NestedEntry}
    {leaf otherLeaf : PathRegistry.NestedEntry → ConfigHash}
    (agree :
      ∀ entry ∈ entries, ∀ name, name ≠ "" →
        qualifiedName entry.segments name = wanted →
          (otherLeaf entry).lookup name = (leaf entry).lookup name)
    {aliases otherAliases : ConfigHash}
    (before : otherAliases.lookup wanted = aliases.lookup wanted) :
    (entries.foldl
        (fun aliases entry =>
          readSection (qualifiedName entry.segments) aliases
            (otherLeaf entry))
        otherAliases).lookup wanted =
      (entries.foldl
        (fun aliases entry =>
          readSection (qualifiedName entry.segments) aliases (leaf entry))
        aliases).lookup wanted := by
  induction entries generalizing aliases otherAliases with
  | nil => exact before
  | cons entry rest ih =>
    obtain ⟨here, later⟩ := List.forall_mem_cons.mp agree
    exact ih later
      (lookup_readSection_congr (qualifiedName_injective _) before here)

theorem lookup_overwrite (aliases new : ConfigHash) (wanted : String) :
    (overwrite aliases new).lookup wanted =
      (new.lookup wanted).or (aliases.lookup wanted) := by
  rw [overwrite, Entries.lookup_overlay, Option.map_id']

theorem lookup_aliases (config : AliasConfig Content) (wanted : String) :
    (config.aliases read).lookup wanted =
      (((config.skillAliases read).lookup wanted).map
          (expandAlias config.home)).or
        (((hashAt
            (merged (config.writable :: config.inherited)
              (config.skillFragments read) config.repo)
            read.key).lookup wanted).map (expandAlias config.home)) := by
  unfold aliases expandPathAliases
  dsimp only
  rw [lookup_overwrite, Entries.lookup_mapValues, Entries.lookup_mapValues]

theorem lookup_skillAliases
    (config : AliasConfig Content) (wanted : String) :
    (config.skillAliases read).lookup wanted =
      ((config.nestedSkillAliasEntries read).lookup wanted).or
        (((config.paths.installedSkillEntries false
            config.paths.directoryInventory).foldl
          (fun aliases skill =>
            readSection (shippedName skill.skillName) aliases
              (hashAt
                (config.skillConfigHash skill.layers (selectedKey read))
                read.key))
          []).lookup wanted) := by
  unfold skillAliases
  dsimp only
  rw [lookup_overwrite, shipped_eq]

theorem lookup_aliases_congr
    (same : SameShipped read one other) {wanted : String}
    (stored :
      ∀ entry ∈
          one.paths.nestedSkillEntries PathRegistry.allWithLocations,
        ∀ name, name ≠ "" →
          qualifiedName entry.segments name = wanted →
            (other.overrides read entry).lookup name =
              (one.overrides read entry).lookup name) :
    (other.aliases read).lookup wanted =
      (one.aliases read).lookup wanted := by
  have nested :
      (other.nestedSkillAliasEntries read).lookup wanted =
        (one.nestedSkillAliasEntries read).lookup wanted := by
    unfold nestedSkillAliasEntries
    dsimp only
    rw [same.paths]
    refine lookup_foldl_readSection_congr stored ?_
    simp only [same.nestedDefaults]
  rw [lookup_aliases, lookup_aliases, lookup_skillAliases,
    lookup_skillAliases, nested, same.hashAt_merged, same.home, same.paths]
  simp only [same.hashAt_skillConfigHash]

theorem lookup_aliases_of_override
    {config : AliasConfig Content} {domain : AliasDomain}
    {location : WriteLocation} {aliasName name : Text} {value : JsonValue}
    (split : SplitName name segments aliasName)
    (located :
      config.paths.skillConfigWriteLocation segments = some location)
    (stored :
      (config.storedAt domain location).lookup (String.ofList aliasName) =
        some value) :
    (config.aliases domain).lookup (String.ofList name) =
      some (expandAlias config.home value) := by
  obtain ⟨front, entry, back, entries, rfl, found, deeper, -⟩ :=
    PathRegistry.exists_entry_of_location located
  have nonempty : String.ofList aliasName ≠ "" := fun empty =>
    split.aliasName_ne (String.ofList_injective empty)
  have later (others : List PathRegistry.NestedEntry)
      (below :
        ∀ other ∈ others,
          entry.segments.length ≤ other.segments.length ∧
            other.segments ≠ entry.segments)
      (aliases : ConfigHash) :
      (others.foldl
          (fun aliases other =>
            readSection (qualifiedName other.segments) aliases
              (config.overrides domain other))
          aliases).lookup (String.ofList name) =
        aliases.lookup (String.ofList name) := by
    induction others generalizing aliases with
    | nil => rfl
    | cons other rest ih =>
      obtain ⟨here, after⟩ := List.forall_mem_cons.mp below
      rw [List.foldl_cons, ih after]
      exact lookup_readSection_of_ne fun key _ =>
        split.ne_of_segments_ne here.1 here.2 key
  have nested :
      (config.nestedSkillAliasEntries domain).lookup (String.ofList name) =
        some value := by
    unfold nestedSkillAliasEntries
    dsimp only
    rw [entries, List.foldl_append, List.foldl_append, List.foldl_cons,
      List.foldl_cons, later back deeper, ← split.joined,
      lookup_readSection_self (qualifiedName_injective _) nonempty]
    unfold overrides
    rw [found]
    dsimp only
    rw [stored]
    rfl
  rw [lookup_aliases, lookup_skillAliases, nested]
  rfl

end AliasConfig

end DeveloperDashboard.Skills
