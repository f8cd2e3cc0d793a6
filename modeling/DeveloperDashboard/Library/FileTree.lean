import DeveloperDashboard.Library.Entries
import Mathlib.Data.List.Dedup
import Mathlib.Data.List.Count
import Mathlib.Data.List.Induction
import Mathlib.Algebra.BigOperators.Group.List.Basic
import Mathlib.Algebra.GroupWithZero.Nat

namespace Library

/-!
# File trees

A finite tree of folders and files, as the entries of its paths.  A path is
the list of the names from the root on.  Whatever stands at a path counts for
the weight of each of its ancestors, so the children of a folder weigh less
than the folder: a walk into the subfolders ends.
-/

inductive FileNode (Content : Type) where
  | folder
  | file (content : Content)

def isFolderOf {Name Content : Type} [DecidableEq Name]
    (entries : Entries (List Name) (FileNode Content)) (path : List Name) :
    Bool :=
  match entries.lookup path with
  | some .folder => true
  | _ => false

/-- The folders and files of a tree: whatever stands in it is in a folder. -/
structure FileTree (Name Content : Type) [DecidableEq Name] where
  entries : Entries (List Name) (FileNode Content)
  closed :
    ∀ entry ∈ entries,
      entry.1 ≠ [] → isFolderOf entries entry.1.dropLast = true

namespace FileTree

variable {Name Content : Type} [DecidableEq Name]

def isFolder (tree : FileTree Name Content) (path : List Name) : Bool :=
  isFolderOf tree.entries path

def content? (tree : FileTree Name Content) (path : List Name) :
    Option Content :=
  match tree.entries.lookup path with
  | some (.file content) => some content
  | _ => none

def isFile (tree : FileTree Name Content) (path : List Name) : Bool :=
  (tree.content? path).isSome

def nameIn (folder path : List Name) : Option Name :=
  if path.dropLast = folder then path.getLast? else none

def names (tree : FileTree Name Content) (folder : List Name) : List Name :=
  (tree.entries.filterMap fun entry => nameIn folder entry.1).dedup

theorem nameIn_eq_some_iff {folder path : List Name} {name : Name} :
    nameIn folder path = some name ↔ path = folder ++ [name] := by
  unfold nameIn
  constructor
  · intro named
    split at named
    · next same =>
        rw [← same, List.dropLast_append_getLast?]
        exact named
    · contradiction
  · rintro rfl
    rw [List.dropLast_concat, if_pos rfl, List.getLast?_concat]

theorem mem_names_iff
    {tree : FileTree Name Content} {folder : List Name} {name : Name} :
    name ∈ tree.names folder ↔
      folder ++ [name] ∈ tree.entries.map Prod.fst := by
  unfold names
  rw [List.mem_dedup, List.mem_filterMap, List.mem_map]
  constructor
  · rintro ⟨entry, member, named⟩
    exact ⟨entry, member, nameIn_eq_some_iff.mp named⟩
  · rintro ⟨entry, member, same⟩
    exact ⟨entry, member, nameIn_eq_some_iff.mpr same⟩

theorem nodup_names (tree : FileTree Name Content) (folder : List Name) :
    (tree.names folder).Nodup :=
  List.nodup_dedup _

theorem isFolder_iff_lookup
    {tree : FileTree Name Content} {path : List Name} :
    tree.isFolder path = true ↔ tree.entries.lookup path = some .folder := by
  unfold isFolder isFolderOf
  split
  · next found => simp [found]
  · next other => simpa using other

theorem mem_keys_of_isFolder
    {tree : FileTree Name Content} {path : List Name}
    (isFolder : tree.isFolder path = true) :
    path ∈ tree.entries.map Prod.fst := by
  by_contra absent
  rw [← Entries.lookup_eq_none_iff] at absent
  rw [FileTree.isFolder, isFolderOf, absent] at isFolder
  contradiction

theorem isFolder_of_lookup
    {tree : FileTree Name Content} {path : List Name} {name : Name}
    (present : tree.entries.lookup (path ++ [name]) ≠ none) :
    tree.isFolder path = true := by
  rw [Ne, Entries.lookup_eq_none_iff, not_not, List.mem_map] at present
  obtain ⟨entry, member, same⟩ := present
  have parent := tree.closed entry member
  rw [same, List.dropLast_concat] at parent
  exact parent (List.append_ne_nil_of_right_ne_nil _ (by simp))

theorem isFolder_parent
    {tree : FileTree Name Content} {path : List Name} {name : Name}
    (isFolder : tree.isFolder (path ++ [name]) = true) :
    tree.isFolder path = true := by
  have present : tree.entries.lookup (path ++ [name]) ≠ none := by
    intro absent
    rw [FileTree.isFolder, isFolderOf, absent] at isFolder
    contradiction
  exact isFolder_of_lookup present

theorem isFolder_of_append
    {tree : FileTree Name Content} {path rest : List Name}
    (isFolder : tree.isFolder (path ++ rest) = true) :
    tree.isFolder path = true := by
  induction rest using List.reverseRecOn with
  | nil =>
    rw [List.append_nil] at isFolder
    exact isFolder
  | append_singleton rest name ih =>
    rw [← List.append_assoc] at isFolder
    exact ih (isFolder_parent isFolder)

theorem mem_names_of_isFolder
    {tree : FileTree Name Content} {folder : List Name} {name : Name}
    (isFolder : tree.isFolder (folder ++ [name]) = true) :
    name ∈ tree.names folder :=
  mem_names_iff.mpr (mem_keys_of_isFolder isFolder)

theorem isFolder_congr {one other : FileTree Name Content} {path : List Name}
    (same : one.entries.lookup path = other.entries.lookup path) :
    one.isFolder path = other.isFolder path := by
  rw [isFolder, isFolder, isFolderOf, isFolderOf, same]

theorem content?_congr {one other : FileTree Name Content} {path : List Name}
    (same : one.entries.lookup path = other.entries.lookup path) :
    one.content? path = other.content? path := by
  rw [content?, content?, same]

theorem isFile_congr {one other : FileTree Name Content} {path : List Name}
    (same : one.entries.lookup path = other.entries.lookup path) :
    one.isFile path = other.isFile path := by
  rw [isFile, isFile, content?_congr same]

theorem names_perm {one other : FileTree Name Content} {folder : List Name}
    (same :
      ∀ name,
        one.entries.lookup (folder ++ [name]) =
          other.entries.lookup (folder ++ [name])) :
    (one.names folder).Perm (other.names folder) := by
  refine (List.perm_ext_iff_of_nodup (nodup_names one folder)
    (nodup_names other folder)).mpr fun name => ?_
  rw [mem_names_iff, mem_names_iff, ← not_iff_not,
    ← Entries.lookup_eq_none_iff, ← Entries.lookup_eq_none_iff, same]

/-- How many entries stand at a path or below it. -/
def weight (tree : FileTree Name Content) (path : List Name) : Nat :=
  tree.entries.countP fun entry => decide (path <+: entry.1)

theorem weight_pos {tree : FileTree Name Content} {path : List Name}
    (isFolder : tree.isFolder path = true) :
    0 < tree.weight path := by
  obtain ⟨entry, member, rfl⟩ :=
    List.mem_map.mp (mem_keys_of_isFolder isFolder)
  exact List.countP_pos_iff.mpr
    ⟨entry, member, decide_eq_true List.prefix_rfl⟩

theorem not_isFolder_of_weight
    {tree : FileTree Name Content} {path : List Name}
    (weightless : tree.weight path = 0) :
    tree.isFolder path = false := by
  by_contra isFolder
  have positive := weight_pos (eq_true_of_ne_false isFolder)
  exact Nat.ne_of_gt positive weightless

omit [DecidableEq Name] in
theorem prefix_concat_unique {folder path : List Name} {name other : Name}
    (below : folder ++ [name] <+: path)
    (belowOther : folder ++ [other] <+: path) :
    name = other := by
  have same := List.prefix_of_prefix_length_le below belowOther (by simp)
  have last := same.eq_of_length (by simp)
  exact List.singleton_inj.mp (List.append_cancel_left last)

/-- At most one of several names leads to a path. -/
theorem countP_below_le {folder path : List Name} {children : List Name}
    (distinct : children.Nodup) :
    (children.countP fun name => decide (folder ++ [name] <+: path)) +
        (if path = folder then 1 else 0) ≤
      if folder <+: path then 1 else 0 := by
  by_cases itself : path = folder
  · subst itself
    have none_ :
        (children.countP fun name => decide (path ++ [name] <+: path)) =
          0 := by
      rw [List.countP_eq_zero]
      intro name _ below
      have short := (of_decide_eq_true below).length_le
      rw [List.length_append, List.length_singleton] at short
      exact Nat.not_succ_le_self _ short
    refine Nat.le_of_eq ?_
    rw [none_, if_pos rfl, if_pos List.prefix_rfl]
  · rw [if_neg itself, Nat.add_zero]
    by_cases inside : ∃ name ∈ children, folder ++ [name] <+: path
    · obtain ⟨name, member, below⟩ := inside
      have single :
          (children.countP fun other =>
              decide (folder ++ [other] <+: path)) ≤
            children.count name := by
        refine List.countP_mono_left fun other _ belowOther => ?_
        exact beq_iff_eq.mpr
          (prefix_concat_unique (of_decide_eq_true belowOther) below)
      rw [if_pos ((List.prefix_append folder [name]).trans below)]
      exact Nat.le_trans single
        (List.nodup_iff_count_le_one.mp distinct name)
    · have none_ :
          (children.countP fun name =>
            decide (folder ++ [name] <+: path)) = 0 := by
        rw [List.countP_eq_zero]
        exact fun name member below =>
          inside ⟨name, member, of_decide_eq_true below⟩
      rw [none_]
      exact Nat.zero_le _

omit [DecidableEq Name] in
theorem sum_map_countP_cons {Item : Type} (meets : Name → Item → Bool)
    (item : Item) (rest : List Item) (children : List Name) :
    (children.map fun name => (item :: rest).countP (meets name)).sum =
      (children.map fun name => rest.countP (meets name)).sum +
        children.countP fun name => meets name item := by
  induction children with
  | nil => rfl
  | cons name others ih =>
    rw [List.map_cons, List.sum_cons, ih, List.map_cons,
      List.sum_cons, List.countP_cons, List.countP_cons]
    omega

theorem sum_weight_lt {tree : FileTree Name Content} {folder : List Name}
    {children : List Name} (isFolder : tree.isFolder folder = true)
    (distinct : children.Nodup) :
    (children.map fun name => tree.weight (folder ++ [name])).sum <
      tree.weight folder := by
  have counted (entries : Entries (List Name) (FileNode Content)) :
      (children.map fun name =>
          entries.countP fun entry =>
            decide (folder ++ [name] <+: entry.1)).sum +
          entries.countP (fun entry => decide (entry.1 = folder)) ≤
        entries.countP fun entry => decide (folder <+: entry.1) := by
    induction entries with
    | nil => simp
    | cons entry rest ih =>
      have here :
          (children.countP fun name =>
              decide (folder ++ [name] <+: entry.1)) +
              (if entry.1 = folder then 1 else 0) ≤
            if folder <+: entry.1 then 1 else 0 :=
        countP_below_le distinct
      rw [sum_map_countP_cons, List.countP_cons, List.countP_cons]
      simp only [decide_eq_true_eq]
      omega
  have itself :
      0 < tree.entries.countP fun entry => decide (entry.1 = folder) := by
    obtain ⟨entry, member, same⟩ :=
      List.mem_map.mp (mem_keys_of_isFolder isFolder)
    exact List.countP_pos_iff.mpr ⟨entry, member, decide_eq_true same⟩
  exact Nat.lt_of_lt_of_le (Nat.lt_add_of_pos_right itself)
    (counted tree.entries)

theorem weight_child_lt {tree : FileTree Name Content} {folder : List Name}
    (isFolder : tree.isFolder folder = true) (name : Name) :
    tree.weight (folder ++ [name]) < tree.weight folder := by
  have single := sum_weight_lt isFolder (List.nodup_singleton name)
  rwa [List.map_singleton, List.sum_singleton] at single

end FileTree

end Library
