import DeveloperDashboard.Helpers.StagingSteps

namespace DeveloperDashboard.Helpers

open Library Perl Files

/-!
# What staging keeps

The files of the user stay, and between runs each helper is as it was at the
start or complete.
-/

/-- A regular file with a content that no release staged under its name. -/
def IsUserFile (wasStaged : Text → Bytes → Prop) (tree : HelperTree)
    (path : HelperPath) : Prop :=
  ∃ name content,
    path.getLast? = some name ∧ HasContent tree path content ∧
      content ≠ [] ∧ ¬ wasStaged name content

def IsIrregular (tree : HelperTree) (path : HelperPath) : Prop :=
  tree.entries.lookup path = some .folder ∨
    tree.entries.lookup path = some (.file .special)

def NotManaged (tree : HelperTree) (path : HelperPath) (name : Text) : Prop :=
  ∀ content,
    HasContent tree path content →
      isDashboardManagedHelper content name = false

namespace HelperHost

variable (host : HelperHost)

/-- The managed content of a name is there and can be executed. -/
def IsStaged (tree : HelperTree) (name : Text) : Prop :=
  ∃ content,
    host.content? name = some content ∧
      tree.entries.lookup (host.helperPath name) =
        some (.file (.regular content true))

variable (wasStaged : Text → Bytes → Prop) (start : HelperTree)

/-- The files of the user stay; a helper may be about to be made executable. -/
structure SettledBut (unfinished : Option HelperPath) (tree : HelperTree) :
    Prop where
  userFiles :
    ∀ path,
      IsUserFile wasStaged start path →
        tree.entries.lookup path = start.entries.lookup path
  places :
    ∀ name ∈ managedNames,
      unfinished ≠ some (host.helperPath name) →
        tree.entries.lookup (host.helperPath name) =
            start.entries.lookup (host.helperPath name) ∨
          host.IsStaged tree name
  flats :
    ∀ name,
      tree.entries.lookup (host.flatPath name) =
          start.entries.lookup (host.flatPath name) ∨
        tree.entries.lookup (host.flatPath name) = none ∨
          tree.entries.lookup (host.flatPath name) = some .folder

/-- The files of the user stay, and no helper is unfinished. -/
abbrev Settled (tree : HelperTree) : Prop :=
  host.SettledBut wasStaged start none tree

/-- What holds wherever a run is: only the last change can be unfinished. -/
def Kept (world : HelperWorld) : Prop :=
  ∃ unfinished,
    host.SettledBut wasStaged start unfinished world.tree ∧
      ∀ path,
        unfinished = some path →
          world.changes.getLast? = some (.placed path)

/-- A helper is complete, or its place is taken as it was at the start. -/
def Done (tree : HelperTree) (name : Text) : Prop :=
  host.IsStaged tree name ∨
    tree.entries.lookup (host.helperPath name) =
        start.entries.lookup (host.helperPath name) ∧
      (IsUserFile wasStaged start (host.helperPath name) ∨
        IsIrregular tree (host.helperPath name))

/-- The places where helpers are staged, were staged and are retired. -/
inductive IsHelperPlace : Text → HelperPath → Prop where
  | staged {name : Text} :
      name ∈ managedNames → IsHelperPlace name (host.helperPath name)
  | flat {name : Text} :
      name ∈ managedNames → IsHelperPlace name (host.flatPath name)
  | retired : IsHelperPlace retiredName (host.helperPath retiredName)

/--
The files at the start: the ownership check recognises exactly what releases
staged, complete contents are executable, no digest is taken by another
content, and no managed helper of another name is in the folder of commands.
-/
structure Fits : Prop where
  recognised :
    ∀ name path content,
      host.IsHelperPlace name path →
      HasContent start path content →
      content ≠ [] →
        (isDashboardManagedHelper content name = true ↔
          wasStaged name content)
  executable :
    ∀ name ∈ managedNames, ∀ content executable,
      host.content? name = some content →
      start.entries.lookup (host.helperPath name) =
          some (.file (.regular content executable)) →
        executable = true
  digests :
    ∀ name ∈ managedNames, ∀ existing content,
      HasContent start (host.helperPath name) existing →
      host.content? name = some content →
      host.digest existing = host.digest content →
        existing = content
  flats :
    ∀ name, name ∉ managedNames → NotManaged start (host.flatPath name) name

end HelperHost

/-- A helper that was put in place is made executable. -/
def finishesHelpers (_ : HelperWorld) : HelperCall → Outcome → Prop
  | .makeExecutable _, outcome => outcome = .succeeds
  | _, _ => True

variable {name : Text}

theorem not_mem_dot (isManaged : name ∈ managedNames) :
    '.' ∉ name := by
  have all : ∀ name ∈ managedNames, '.' ∉ name := by
    decide +kernel
  exact all name isManaged

theorem retiredName_not_mem : retiredName ∉ managedNames := by
  decide +kernel

theorem mem_managedNames_of_canonical {given : Text}
    (canonical : canonicalHelperName given = some name) :
    name ∈ managedNames := by
  unfold canonicalHelperName at canonical
  split at canonical
  · next found =>
      obtain rfl := Option.some.inj canonical
      obtain ⟨other, member, same⟩ := List.any_eq_true.mp found
      rw [← of_decide_eq_true same]
      exact List.mem_cons_of_mem _ member
  · obtain ⟨entry, found, rfl⟩ := Option.map_eq_some_iff.mp canonical
    have all : ∀ entry ∈ helperAliases, entry.2 ∈ managedNames := by
      decide +kernel
    exact all entry (List.mem_of_find?_eq_some found)

namespace HelperHost

variable (host : HelperHost)

theorem helperPath_inj {other : Text} :
    host.helperPath name = host.helperPath other ↔ name = other := by
  constructor
  · intro same
    exact List.singleton_inj.mp (List.append_cancel_left same)
  · rintro rfl
    rfl

theorem flatPath_inj {other : Text}
    (same : host.flatPath name = host.flatPath other) : name = other :=
  List.singleton_inj.mp (List.append_cancel_left same)

theorem flatPath_ne_in_installRoot (name : Text) (other : Text) :
    host.flatPath name ≠ host.installRoot ++ [other] := by
  intro same
  have lengths := congrArg List.length same
  simp [flatPath, installRoot, parentRoot] at lengths

theorem tempPath_ne_helperPath (name suffix : Text) {other : Text}
    (noDot : '.' ∉ other) :
    host.tempPath name suffix ≠ host.helperPath other := by
  intro same
  have sameName := List.singleton_inj.mp (List.append_cancel_left same)
  refine noDot (sameName ▸ ?_)
  simp

theorem helperPath_ne_of_length {path : HelperPath} (name : Text)
    (short : path.length ≤ host.installRoot.length) :
    host.helperPath name ≠ path := by
  rintro rfl
  simp [helperPath] at short

variable {host}
variable {wasStaged : Text → Bytes → Prop} {start : HelperTree}
variable {tree after : HelperTree} {path : HelperPath}

theorem IsStaged.congr
    (same :
      after.entries.lookup (host.helperPath name) =
        tree.entries.lookup (host.helperPath name))
    (isStaged : host.IsStaged tree name) : host.IsStaged after name := by
  obtain ⟨content, isContent, found⟩ := isStaged
  exact ⟨content, isContent, same.trans found⟩

theorem Done.congr
    (same :
      after.entries.lookup (host.helperPath name) =
        tree.entries.lookup (host.helperPath name))
    (done : host.Done wasStaged start tree name) :
    host.Done wasStaged start after name := by
  rcases done with isStaged | ⟨kept, taken⟩
  · exact .inl (isStaged.congr same)
  · refine .inr ⟨same.trans kept, taken.imp_right fun irregular => ?_⟩
    unfold IsIrregular
    rw [same]
    exact irregular

/-- A change of a path that is neither the user's nor a helper's. -/
theorem SettledBut.sameBut {unfinished : Option HelperPath}
    (settled : host.SettledBut wasStaged start unfinished tree)
    (same : SameBut path tree after)
    (notUser : ¬ IsUserFile wasStaged start path)
    (notPlace :
      ∀ name ∈ managedNames, host.helperPath name ≠ path)
    (flat :
      ∀ name,
        host.flatPath name = path →
          after.entries.lookup path = none ∨
            after.entries.lookup path = some .folder) :
    host.SettledBut wasStaged start unfinished after where
  userFiles := by
    intro other isUser
    have different : other ≠ path := by
      rintro rfl
      exact notUser isUser
    rw [same other different]
    exact settled.userFiles other isUser
  places := by
    intro name isManaged finished
    have here := same _ (notPlace name isManaged)
    rw [here]
    exact (settled.places name isManaged finished).imp_right
      (IsStaged.congr here)
  flats := by
    intro name
    by_cases isPath : host.flatPath name = path
    · rw [isPath]
      exact .inr (flat name isPath)
    · rw [same _ isPath]
      exact settled.flats name

theorem SettledBut.finish
    (settled :
      host.SettledBut wasStaged start (some (host.helperPath name)) tree)
    (isStaged : host.IsStaged tree name) :
    host.Settled wasStaged start tree where
  userFiles := settled.userFiles
  places := by
    intro other isManaged _
    by_cases isName : other = name
    · rw [isName]
      exact .inr isStaged
    · refine settled.places other isManaged fun same => isName ?_
      exact (host.helperPath_inj.mp (Option.some.inj same)).symm
  flats := settled.flats

theorem SettledBut.kept {world : HelperWorld}
    (settled : host.Settled wasStaged start world.tree) :
    host.Kept wasStaged start world :=
  ⟨none, settled, by rintro path ⟨⟩⟩

theorem Kept.settled {world : HelperWorld}
    (kept : host.Kept wasStaged start world)
    (finished : ∀ path, world.changes.getLast? ≠ some (.placed path)) :
    host.Settled wasStaged start world.tree := by
  obtain ⟨unfinished, settled, isLast⟩ := kept
  cases unfinished with
  | none => exact settled
  | some path => exact absurd (isLast path rfl) (finished path)

theorem not_isUserFile_of_isManaged {content : Bytes}
    (fits : host.Fits wasStaged start)
    (settled : host.Settled wasStaged start tree)
    (isPlace : host.IsHelperPlace name path)
    (found : HasContent tree path content)
    (isManaged : isDashboardManagedHelper content name = true) :
    ¬ IsUserFile wasStaged start path := by
  intro isUser
  have kept := settled.userFiles path isUser
  obtain ⟨other, existing, isName, hasExisting, nonempty, notStaged⟩ := isUser
  have sameContent : existing = content := by
    obtain ⟨executable, existingFound⟩ := hasExisting
    obtain ⟨other, contentFound⟩ := found
    rw [kept, existingFound] at contentFound
    cases contentFound
    rfl
  have sameName : other = name := by
    cases isPlace <;>
      simpa [helperPath, flatPath, eq_comm] using isName
  subst sameContent sameName
  exact notStaged ((fits.recognised _ _ _ isPlace hasExisting nonempty).mp
    isManaged)

end HelperHost

end DeveloperDashboard.Helpers
