import DeveloperDashboard.Docker.ServiceFolders
import DeveloperDashboard.Library.Joined

namespace DeveloperDashboard.Files.CachedSources

open Perl Skills Docker Docker.DockerCompose

/-!
# Sources in the cache

`_contained_cache_path` puts segments from archives, search results and the
command line below a root, or refuses them.  What a path means is said by a
walk over all its names, in a file system that has every directory.
-/

def isSeparator (char : Char) : Bool :=
  char = '\\' || char = '/'

/-- `_contained_cache_path`, with the loop of `_contained_service_path`. -/
def containedCachePath (root : Path) (segments : List Text) : Option Path :=
  (resolveNames [] (segments.flatMap (pathNames isSeparator))).map (root ++ ·)

/-- The names in segments, with those that mean nothing. -/
def flattened (segments : List Text) : List Text :=
  segments.flatMap fun segment => segment.splitOnP isSeparator

def denoted : Path → List Text → Path
  | dir, [] => dir
  | dir, name :: rest =>
    if name = [] ∨ name = ['.'] then denoted dir rest
    else if name = parentName then denoted dir.dropLast rest
    else denoted (dir ++ [name]) rest

/-- No beginning of the names climbs above the directory. -/
def StaysBelow (dir : Path) (names : List Text) : Prop :=
  ∀ before, before <+: names → dir <+: denoted dir before

structure IsName (name : Text) : Prop where
  nonempty : name ≠ []
  notHere : name ≠ ['.']
  notParent : name ≠ parentName
  oneName : ∀ char ∈ name, isSeparator char = false

def IsBelow (root path : Path) : Prop :=
  ∃ names, names ≠ [] ∧ path = root ++ names ∧ ∀ name ∈ names, IsName name

variable {Content : Type}

structure SourceCache where
  cacheRoot : Path
  md5Hex : Text → Text

/-- An archive: its path, and the names and contents of its members. -/
structure Archive (Content : Type) where
  path : Text
  members : List (Text × Content)

/-- `_matching_java_archive_entries` -/
def matchingJavaArchiveEntries (archive : Archive Content)
    (relative : Text) : List Text :=
  let suffix := relative.map fun char => if char = '\\' then '/' else char
  (archive.members.map Prod.fst).filter fun name =>
    isTrue name && (name == suffix || ('/' :: suffix).isSuffixOf name)

/-- What the directory of a member is named after. -/
def digestKey (archive entry : Text) : Text :=
  archive ++ '\x00' :: entry

def javaSources (cache : SourceCache) (digest : Text) : Path :=
  cache.cacheRoot ++ ["open-file".toList, "java-sources".toList, digest]

/-- `_cached_archive_source_path` -/
def cachedArchiveSourcePath (cache : SourceCache) (archive entry : Text) :
    Option Path :=
  containedCachePath
    (javaSources cache (cache.md5Hex (digestKey archive entry))) [entry]

/--
The files that `_extract_java_sources_from_archive` writes, with the member
that is the first of its name.  A run that dies has written some of them.
-/
def extractJavaSources (cache : SourceCache) (archive : Archive Content)
    (relative : Text) : List (Path × Text × Content) :=
  if !isTrue archive.path || !isTrue relative then []
  else
    (matchingJavaArchiveEntries archive relative).filterMap fun entry =>
      (archive.members.lookup entry).bind fun contents =>
        (cachedArchiveSourcePath cache archive.path entry).map
          (·, entry, contents)

def mavenSources (cache : SourceCache) : Path :=
  cache.cacheRoot ++ ["open-file".toList, "maven-sources".toList]

/-- The file that `_download_maven_source_jar` mirrors an archive to. -/
def mavenTarget (cache : SourceCache) (g a v : Option Text) : Option Path :=
  g.bind fun g => a.bind fun a => v.bind fun v =>
    containedCachePath (mavenSources cache)
      [['/'].intercalate ((g.splitOn '.').rdropWhile (· == [])), a, v,
        a ++ '-' :: v ++ "-sources.jar".toList]

/-- `_scope_relative_path_match`, of a scope that is given. -/
def scopeRelativePathMatch (isFile : Path → Bool) (scope : Option Path)
    (patterns : List (Option Text)) : Option Path :=
  if patterns.isEmpty || patterns.any (fun pattern => pattern.getD [] == [])
  then none
  else
    scope.bind fun scope =>
      (containedCachePath scope patterns.reduceOption).filter isFile

theorem denoted_skip {name : Text} (skipped : name = [] ∨ name = ['.'])
    (dir : Path) (rest : List Text) :
    denoted dir (name :: rest) = denoted dir rest :=
  if_pos skipped

theorem staysBelow_cons {root dir next : Path} {name : Text}
    {rest : List Text}
    (moves : ∀ names, denoted dir (name :: names) = denoted next names) :
    (∀ before, before <+: name :: rest → root <+: denoted dir before) ↔
      root <+: dir ∧ ∀ before, before <+: rest →
        root <+: denoted next before := by
  constructor
  · intro stays
    refine ⟨stays [] List.nil_prefix, fun before begins => ?_⟩
    rw [← moves]
    exact stays _ (List.cons_prefix_cons.mpr ⟨rfl, begins⟩)
  · rintro ⟨here, later⟩ before begins
    cases before with
    | nil => exact here
    | cons first more =>
      obtain ⟨rfl, within⟩ := List.cons_prefix_cons.mp begins
      rw [moves]
      exact later more within

def isKept (name : Text) : Bool :=
  decide (name ≠ [] ∧ name ≠ ['.'])

/-- The stack of the loop is where the walk is below the root. -/
theorem resolveNames_eq_some_iff {root : Path} (nonempty : root ≠ [])
    (names resolved found : List Text) :
    resolveNames resolved (names.filter isKept) = some found ↔
      found ≠ [] ∧ denoted (root ++ resolved) names = root ++ found ∧
        ∀ before, before <+: names →
          root <+: denoted (root ++ resolved) before := by
  induction names generalizing resolved with
  | nil =>
    have ends : ∀ before, before <+: [] →
        root <+: denoted (root ++ resolved) before := by
      intro before begins
      rw [List.prefix_nil.mp begins]
      exact List.prefix_append _ _
    simp only [List.filter_nil, resolveNames, denoted, List.append_cancel_left_eq]
    split
    · next empty =>
      refine iff_of_false (by simp) ?_
      rintro ⟨some_, same, -⟩
      exact some_ (same.symm.trans empty)
    · next some_ =>
      rw [Option.some.injEq]
      refine ⟨?_, fun holds => holds.2.1⟩
      rintro rfl
      exact ⟨some_, rfl, ends⟩
  | cons name rest ih =>
    have here := List.prefix_append root resolved
    by_cases skipped : name = [] ∨ name = ['.']
    · have dropped : ¬ isKept name = true := fun kept =>
        not_or.mpr (of_decide_eq_true kept) skipped
      rw [List.filter_cons_of_neg dropped, ih, denoted_skip skipped,
        staysBelow_cons (denoted_skip skipped (root ++ resolved)),
        and_iff_right here]
    · have kept : isKept name = true := decide_eq_true (not_or.mp skipped)
      rw [List.filter_cons_of_pos kept, resolveNames]
      by_cases up : name = parentName
      · have moves : ∀ names, denoted (root ++ resolved) (name :: names) =
            denoted (root ++ resolved).dropLast names :=
          fun _ => (if_neg skipped).trans (if_pos up)
        rw [if_pos up, moves, staysBelow_cons moves]
        by_cases top : resolved = []
        · rw [if_pos top, top, List.append_nil]
          refine iff_of_false (by simp) ?_
          rintro ⟨-, -, -, stays⟩
          have short := (stays [] List.nil_prefix).length_le
          rw [denoted, List.length_dropLast] at short
          have positive := List.length_pos_iff.mpr nonempty
          omega
        · rw [if_neg top, ih, List.dropLast_append_of_ne_nil top,
            and_iff_right here]
      · have moves : ∀ names, denoted (root ++ resolved) (name :: names) =
            denoted (root ++ (resolved ++ [name])) names := by
          intro names
          rw [← List.append_assoc]
          exact (if_neg skipped).trans (if_neg up)
        rw [if_neg up, ih, moves, staysBelow_cons moves, and_iff_right here]

theorem of_mem_resolveNames {names resolved found : List Text}
    (resolves : resolveNames resolved names = some found) :
    ∀ name ∈ found, name ∈ resolved ∨ name ∈ names ∧ name ≠ parentName := by
  induction names generalizing resolved with
  | nil =>
    rw [resolveNames] at resolves
    split at resolves
    · cases resolves
    · obtain rfl := Option.some.inj resolves
      exact fun name member => .inl member
  | cons first rest ih =>
    intro name member
    rw [resolveNames] at resolves
    split at resolves
    · split at resolves
      · cases resolves
      · refine (ih resolves name member).imp List.mem_of_mem_dropLast ?_
        exact fun later => ⟨List.mem_cons_of_mem _ later.1, later.2⟩
    · next down =>
      rcases ih resolves name member with before | later
      · rcases List.mem_append.mp before with before | isFirst
        · exact .inl before
        · obtain rfl := List.mem_singleton.mp isFirst
          exact .inr ⟨List.mem_cons_self, down⟩
      · exact .inr ⟨List.mem_cons_of_mem _ later.1, later.2⟩

theorem flatMap_pathNames (segments : List Text) :
    segments.flatMap (pathNames isSeparator) =
      (flattened segments).filter isKept := by
  rw [flattened, List.filter_flatMap]
  rfl

variable {root path : Path} {segments : List Text}

theorem isBelow_of_containedCachePath
    (contained : containedCachePath root segments = some path) :
    IsBelow root path := by
  obtain ⟨names, resolves, rfl⟩ := Option.map_eq_some_iff.mp contained
  refine ⟨names, ?_, rfl, fun name member => ?_⟩
  · rw [flatMap_pathNames] at resolves
    exact ((resolveNames_eq_some_iff (List.cons_ne_nil [] []) _ _ _).mp
      resolves).1
  · rcases of_mem_resolveNames resolves name member with none_ | ⟨isIn, notParent⟩
    · cases none_
    · obtain ⟨segment, -, isIn⟩ := List.mem_flatMap.mp isIn
      obtain ⟨isPart, kept⟩ := List.mem_filter.mp isIn
      obtain ⟨nonempty, notHere⟩ := of_decide_eq_true kept
      exact ⟨nonempty, notHere, notParent,
        Library.Joined.not_of_mem_splitOnP isPart⟩

theorem containedCachePath_eq_some_iff (outer : Text) (root : Path)
    (segments : List Text) (path : Path) :
    containedCachePath root segments = some path ↔
      IsBelow root path ∧
        denoted (outer :: root) (flattened segments) = outer :: path ∧
        StaysBelow (outer :: root) (flattened segments) := by
  have walks := fun found => resolveNames_eq_some_iff
    (List.cons_ne_nil outer root) (flattened segments) [] found
  rw [List.append_nil] at walks
  constructor
  · intro contained
    refine ⟨isBelow_of_containedCachePath contained, ?_⟩
    obtain ⟨names, resolves, rfl⟩ := Option.map_eq_some_iff.mp contained
    rw [flatMap_pathNames] at resolves
    exact ((walks names).mp resolves).2
  · rintro ⟨⟨names, nonempty, rfl, -⟩, same, stays⟩
    refine Option.map_eq_some_iff.mpr ⟨names, ?_, rfl⟩
    rw [flatMap_pathNames]
    exact (walks names).mpr ⟨nonempty, same, stays⟩

/-- What is refused climbs above the root, or leads back to it. -/
theorem containedCachePath_eq_none_iff (outer : Text) (root : Path)
    (segments : List Text) :
    containedCachePath root segments = none ↔
      ¬ StaysBelow (outer :: root) (flattened segments) ∨
        denoted (outer :: root) (flattened segments) = outer :: root := by
  have walks := fun found => resolveNames_eq_some_iff
    (List.cons_ne_nil outer root) (flattened segments) [] found
  rw [List.append_nil] at walks
  rw [containedCachePath, Option.map_eq_none_iff, flatMap_pathNames,
    Option.eq_none_iff_forall_ne_some]
  simp only [ne_eq, walks]
  constructor
  · intro refused
    refine or_iff_not_imp_left.mpr fun stays => ?_
    have below := not_not.mp stays
    obtain ⟨names, same⟩ := below _ List.prefix_rfl
    by_cases empty : names = []
    · rw [← same, empty, List.append_nil]
    · exact absurd ⟨empty, same.symm, below⟩ (refused names)
  · rintro (climbs | back) names ⟨nonempty, same, stays⟩
    · exact climbs stays
    · rw [back] at same
      exact nonempty (List.append_right_eq_self.mp same.symm)

/-- Digests tell apart what different names of the archive are named after. -/
def SeparatesMembers (cache : SourceCache) (archive : Archive Content) :
    Prop :=
  ∀ one ∈ archive.members.map Prod.fst,
    ∀ other ∈ archive.members.map Prod.fst,
      cache.md5Hex (digestKey archive.path one) =
        cache.md5Hex (digestKey archive.path other) → one = other

theorem of_mem_extractJavaSources {cache : SourceCache}
    {archive : Archive Content} {relative : Text}
    {file : Path × Text × Content}
    (isFile : file ∈ extractJavaSources cache archive relative) :
    file.2.1 ∈ archive.members.map Prod.fst ∧
      archive.members.lookup file.2.1 = some file.2.2 ∧
      cachedArchiveSourcePath cache archive.path file.2.1 = some file.1 := by
  unfold extractJavaSources at isFile
  split at isFile
  · cases isFile
  · obtain ⟨entry, isEntry, found⟩ := List.mem_filterMap.mp isFile
    obtain ⟨contents, isFirst, found⟩ := Option.bind_eq_some_iff.mp found
    obtain ⟨target, isTarget, rfl⟩ := Option.map_eq_some_iff.mp found
    exact ⟨(List.mem_filter.mp isEntry).1, isFirst, isTarget⟩

theorem digest_of_cachedArchiveSourcePath {cache : SourceCache}
    {archive entry : Text}
    (isTarget : cachedArchiveSourcePath cache archive entry = some path) :
    path[cache.cacheRoot.length + 2]? =
      some (cache.md5Hex (digestKey archive entry)) := by
  obtain ⟨names, -, rfl⟩ := Option.map_eq_some_iff.mp isTarget
  simp [javaSources]

/--
Segments are resolved lexically, and what is written to the cache, or found in
a scope, is below it.
-/
structure StaysInside (cache : SourceCache) (archive : Archive Content) :
    Prop where
  resolved : ∀ outer root segments path,
    containedCachePath root segments = some path ↔
      IsBelow root path ∧
        denoted (outer :: root) (flattened segments) = outer :: path ∧
        StaysBelow (outer :: root) (flattened segments)
  refused : ∀ outer root segments,
    containedCachePath root segments = none ↔
      ¬ StaysBelow (outer :: root) (flattened segments) ∨
        denoted (outer :: root) (flattened segments) = outer :: root
  extracted : ∀ relative, ∀ file ∈ extractJavaSources cache archive relative,
    IsBelow (javaSources cache
      (cache.md5Hex (digestKey archive.path file.2.1))) file.1
  downloaded : ∀ g a v path, mavenTarget cache g a v = some path →
    IsBelow (mavenSources cache) path
  matched : ∀ isFile scope patterns path,
    scopeRelativePathMatch isFile (some scope) patterns = some path →
      IsBelow scope path
  apart : ∀ relative, ∀ one ∈ extractJavaSources cache archive relative,
    ∀ other ∈ extractJavaSources cache archive relative,
      one.1 = other.1 → one = other

def doubled : Archive Nat :=
  ⟨['x'], [("p/A.java".toList, 1), ("p/A.java".toList, 2)]⟩

def md5OfName : Text :=
  "8190d0e3ce3c25cb25eb8e54ce14eef9".toList

end DeveloperDashboard.Files.CachedSources
