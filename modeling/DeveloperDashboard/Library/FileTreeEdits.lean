import DeveloperDashboard.Library.FileTree
import Mathlib.Data.List.Infix

namespace Library

/-!
# Edits of file trees

Folders are made from the root on, a file is written into a folder that is
there, and a file is unlinked.  Each edit keeps whatever stands in the tree in
a folder, and is described by what it leaves at each path.
-/

namespace FileTree

variable {Name Content : Type} [DecidableEq Name]

def put (tree : FileTree Name Content) (path : List Name)
    (node : FileNode Content)
    (inFolder : path ≠ [] → tree.isFolder path.dropLast = true)
    (fits : tree.isFolder path = true → node = .folder) :
    FileTree Name Content where
  entries := tree.entries.store path node
  closed := by
    intro entry member nonempty
    have parent : tree.isFolder entry.1.dropLast = true := by
      rcases Entries.mem_store member with before | rfl
      · exact tree.closed entry before nonempty
      · exact inFolder nonempty
    unfold isFolderOf
    by_cases same : path = entry.1.dropLast
    · rw [← same, Entries.lookup_store_self, fits (same ▸ parent)]
    · rw [Entries.lookup_store_of_ne _ same]
      exact parent

def unlink (tree : FileTree Name Content) (path : List Name)
    (noFolder : tree.isFolder path = false) :
    FileTree Name Content where
  entries := tree.entries.remove path
  closed := by
    intro entry member nonempty
    have parent : tree.isFolder entry.1.dropLast = true :=
      tree.closed entry (List.mem_of_mem_filter member) nonempty
    have other : path ≠ entry.1.dropLast := by
      intro same
      rw [← same, noFolder] at parent
      cases parent
    unfold isFolderOf
    rw [Entries.lookup_remove_of_ne _ other]
    exact parent

theorem lookup_put {tree : FileTree Name Content} {path : List Name}
    {node : FileNode Content}
    {inFolder : path ≠ [] → tree.isFolder path.dropLast = true}
    {fits : tree.isFolder path = true → node = .folder} (other : List Name) :
    (tree.put path node inFolder fits).entries.lookup other =
      if other = path then some node else tree.entries.lookup other := by
  by_cases same : other = path
  · rw [if_pos same, same]
    exact Entries.lookup_store_self _ _ _
  · rw [if_neg same]
    exact Entries.lookup_store_of_ne _ (Ne.symm same) _

theorem lookup_unlink {tree : FileTree Name Content} {path : List Name}
    {noFolder : tree.isFolder path = false} (other : List Name) :
    (tree.unlink path noFolder).entries.lookup other =
      if other = path then none else tree.entries.lookup other := by
  by_cases same : other = path
  · rw [if_pos same, same]
    exact Entries.lookup_remove_self _ _
  · rw [if_neg same]
    exact Entries.lookup_remove_of_ne _ (Ne.symm same)

def makeFolder (tree : FileTree Name Content) (path : List Name) :
    Option (FileTree Name Content) :=
  match tree.entries.lookup path with
  | some .folder => some tree
  | some (.file _) => none
  | none =>
    if inFolder : path ≠ [] → tree.isFolder path.dropLast = true then
      some (tree.put path .folder inFolder fun _ => rfl)
    else none

/-- Make folders one after the other; an error carries what was made. -/
def makePath (tree : FileTree Name Content) :
    List (List Name) →
    Except (FileTree Name Content) (FileTree Name Content)
  | [] => .ok tree
  | path :: rest =>
    match tree.makeFolder path with
    | none => .error tree
    | some made => made.makePath rest

def writeFile
    (tree : FileTree Name Content) (path : List Name) (content : Content) :
    Option (FileTree Name Content) :=
  if inFolder : path ≠ [] → tree.isFolder path.dropLast = true then
    if noFolder : tree.isFolder path = false then
      some (tree.put path (.file content) inFolder fun isFolder =>
        absurd (noFolder.symm.trans isFolder) Bool.false_ne_true)
    else none
  else none

def removeFile (tree : FileTree Name Content) (path : List Name) :
    Option (FileTree Name Content) :=
  if noFolder : tree.isFolder path = false then
    some (tree.unlink path noFolder)
  else none

theorem lookup_makeFolder
    {tree made : FileTree Name Content} {path : List Name}
    (returned : tree.makeFolder path = some made) (other : List Name) :
    made.entries.lookup other =
      if other = path then some .folder else tree.entries.lookup other := by
  unfold makeFolder at returned
  split at returned
  · next found =>
      obtain rfl := Option.some.inj returned
      split
      · next same => rw [same, found]
      · rfl
  · cases returned
  · split at returned
    · obtain rfl := Option.some.inj returned
      exact lookup_put other
    · cases returned

theorem lookup_of_makeFolder
    {tree made : FileTree Name Content} {path : List Name}
    (returned : tree.makeFolder path = some made) :
    tree.entries.lookup path = none ∨
      tree.entries.lookup path = some .folder := by
  unfold makeFolder at returned
  split at returned
  · next found => exact Or.inr found
  · cases returned
  · next found => exact Or.inl found

theorem lookup_makePath
    {tree made : FileTree Name Content} {paths : List (List Name)}
    (returned : tree.makePath paths = .ok made) (other : List Name) :
    made.entries.lookup other =
      if other ∈ paths then some .folder else tree.entries.lookup other := by
  induction paths generalizing tree with
  | nil =>
    obtain rfl := Except.ok.inj returned
    rfl
  | cons path rest ih =>
    rw [makePath] at returned
    split at returned
    · cases returned
    · next next makes =>
        rw [ih returned, lookup_makeFolder makes]
        by_cases later : other ∈ rest
        · rw [if_pos later, if_pos (List.mem_cons_of_mem _ later)]
        · rw [if_neg later]
          by_cases same : other = path
          · rw [if_pos same, if_pos (by rw [same]; exact List.mem_cons_self)]
          · rw [if_neg same, if_neg fun member =>
              (List.mem_cons.mp member).elim same later]

/-- Whatever changes while folders are made is one of them, and new. -/
theorem made_of_makePath
    {tree left : FileTree Name Content} {paths : List (List Name)}
    (leaves :
      tree.makePath paths = .ok left ∨ tree.makePath paths = .error left)
    {other : List Name}
    (changes : left.entries.lookup other ≠ tree.entries.lookup other) :
    other ∈ paths ∧ tree.entries.lookup other = none ∧
      left.entries.lookup other = some .folder := by
  induction paths generalizing tree with
  | nil =>
    rcases leaves with made | failed
    · obtain rfl := Except.ok.inj made
      exact absurd rfl changes
    · cases failed
  | cons path rest ih =>
    rw [makePath] at leaves
    cases makes : tree.makeFolder path with
    | none =>
      rw [makes] at leaves
      rcases leaves with made | failed
      · cases made
      · obtain rfl := Except.error.inj failed
        exact absurd rfl changes
    | some made =>
      rw [makes] at leaves
      have here := lookup_makeFolder makes other
      by_cases same : other = path
      · rw [if_pos same] at here
        have kept :
            left.entries.lookup other = made.entries.lookup other := by
          by_contra again
          have := (ih leaves again).2.1
          rw [here] at this
          cases this
        rw [kept, here] at changes ⊢
        refine ⟨by rw [same]; exact List.mem_cons_self, ?_, rfl⟩
        rcases lookup_of_makeFolder makes with absent | present
        · rw [same, absent]
        · rw [same, present] at changes
          exact absurd rfl changes
      · rw [if_neg same] at here
        rw [← here] at changes ⊢
        obtain ⟨later, absent, folder⟩ :=
          ih leaves changes
        exact ⟨List.mem_cons_of_mem _ later, absent, folder⟩

theorem lookup_writeFile
    {tree written : FileTree Name Content} {path : List Name}
    {content : Content}
    (returned : tree.writeFile path content = some written)
    (other : List Name) :
    written.entries.lookup other =
      if other = path then some (.file content)
      else tree.entries.lookup other := by
  unfold writeFile at returned
  split at returned
  · split at returned
    · obtain rfl := Option.some.inj returned
      exact lookup_put other
    · cases returned
  · cases returned

theorem writeFile_isSome_iff
    {tree : FileTree Name Content} {path : List Name} {content : Content} :
    (∃ written, tree.writeFile path content = some written) ↔
      (path ≠ [] → tree.isFolder path.dropLast = true) ∧
        tree.isFolder path = false := by
  unfold writeFile
  split
  · split <;> simp_all
  · simp_all

theorem lookup_removeFile
    {tree left : FileTree Name Content} {path : List Name}
    (returned : tree.removeFile path = some left) (other : List Name) :
    left.entries.lookup other =
      if other = path then none else tree.entries.lookup other := by
  unfold removeFile at returned
  split at returned
  · obtain rfl := Option.some.inj returned
    exact lookup_unlink other
  · cases returned

theorem isFolder_of_removeFile
    {tree left : FileTree Name Content} {path : List Name}
    (returned : tree.removeFile path = some left) :
    tree.isFolder path = false := by
  unfold removeFile at returned
  split at returned
  · assumption
  · cases returned

section Walks

variable (up : Name)

/--
Where the system gets from a folder by some names, of which one leads up.  A
name is looked for only in a folder.
-/
def walk (tree : FileTree Name Content) :
    List Name → List Name → Option (List Name)
  | path, [] => some path
  | path, name :: rest =>
    if tree.isFolder path then
      if name = up then walk tree path.dropLast rest
      else walk tree (path ++ [name]) rest
    else none

variable {up}

theorem walk_congr {one other : FileTree Name Content}
    (same : ∀ path, one.isFolder path = other.isFolder path)
    (path names : List Name) :
    one.walk up path names = other.walk up path names := by
  induction names generalizing path with
  | nil => rfl
  | cons name rest ih =>
    rw [walk, walk, same, ih, ih]

end Walks

end FileTree

end Library
