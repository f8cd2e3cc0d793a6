import DeveloperDashboard.Docker.ServiceToggles

namespace DeveloperDashboard.Docker

open Library Perl Skills

/-!
# What the toggles do to the files

A toggle that writes makes the folder of the service in the home layer, and
leaves a marker in it.  A toggle that unlinks takes the marker away from the
folder that it resolves below each root that the readers go through.
-/

theorem Marker.fileName_ne (marker : Marker) :
    marker.fileName ≠ ".disabled".toList := by
  cases marker <;> decide

variable {path : Path}

theorem isFile_iff {tree : Tree} :
    tree.isFile path = true ↔
      ∃ content, tree.entries.lookup path = some (.file content) := by
  unfold FileTree.isFile FileTree.content?
  cases tree.entries.lookup path with
  | none => simp
  | some node => cases node <;> simp

theorem isFolder_iff {tree : Tree} :
    tree.isFolder path = true ↔
      tree.entries.lookup path = some .folder :=
  FileTree.isFolder_iff_lookup

theorem isFolder_of_isFile {tree : Tree} {dir : Path} {name : Text}
    (isFile : tree.isFile (dir ++ [name]) = true) :
    tree.isFolder dir = true := by
  obtain ⟨content, found⟩ := isFile_iff.mp isFile
  have present : tree.entries.lookup (dir ++ [name]) ≠ none := by
    rw [found]
    exact Option.some_ne_none _
  exact FileTree.isFolder_of_lookup present

theorem SameFolders.of_markers {one other : Tree} (marker : Marker)
    (same :
      ∀ path, one.entries.lookup path ≠ other.entries.lookup path →
        (∃ dir, path = dir ++ [marker.fileName]) ∧
          one.isFolder path = false ∧ other.isFolder path = false) :
    SameFolders one other where
  folder path := by
    by_cases equal : one.entries.lookup path = other.entries.lookup path
    · exact FileTree.isFolder_congr equal
    · obtain ⟨-, noFolder, noFolderToo⟩ := same path equal
      rw [noFolder, noFolderToo]
  disabled path := by
    refine FileTree.isFile_congr ?_
    by_contra different
    obtain ⟨⟨dir, isMarker⟩, -⟩ := same _ different
    have last := (List.append_inj' isMarker rfl).2
    exact marker.fileName_ne (List.singleton_inj.mp last).symm

variable {names : List Text} {roots : List Path}

namespace DockerCompose

variable {compose : DockerCompose} {tree after : Tree} {service : Text}
  {marker : Marker}

theorem takeWhile_inits {dir : Path} (plain : isPathText dir = true) :
    dir.inits.takeWhile isPathText = dir.inits := by
  refine List.takeWhile_eq_self_iff.mpr fun path member => ?_
  have isPrefix := (List.mem_inits path dir).mp member
  exact List.all_eq_true.mpr fun name isIn =>
    List.all_eq_true.mp plain name (isPrefix.subset isIn)

/-- What a toggle that writes and returns has done. -/
structure Wrote
    (compose : DockerCompose) (tree after : Tree) (marker : Marker)
    (content service : Text) (dir : Path) (made : Tree) : Prop where
  named : isTrue service = true
  contained :
    containedServicePath (compose.serviceToggleRoot tree) service = some dir
  plain : isPathText dir = true
  makes : tree.makePath dir.inits = .ok made
  writes : made.writeFile (dir ++ [marker.fileName]) content = some after

theorem writeMarker_ok_iff
    {usage content action : Text} {state : Text × Bool} :
    (∃ report,
        compose.writeMarker tree usage content action state marker service =
          .ok (report, after)) ↔
      ∃ dir made, Wrote compose tree after marker content service dir made := by
  constructor
  · rintro ⟨report, returned⟩
    unfold writeMarker at returned
    split at returned
    · cases returned
    · next named =>
      split at returned
      · cases returned
      · next dir contained =>
        split at returned
        · cases returned
        · next made makes =>
          split at returned
          · cases returned
          · next taken =>
            have plain : isPathText dir = true := by simpa using taken
            split at returned
            · cases returned
            · next written writes =>
                obtain ⟨-, rfl⟩ := Prod.mk.inj (Except.ok.inj returned)
                exact ⟨dir, made, by simpa using named, contained, plain,
                  takeWhile_inits plain ▸ makes, writes⟩
  · rintro ⟨dir, made, wrote⟩
    refine ⟨⟨action, state, dir ++ [marker.fileName], service⟩, ?_⟩
    unfold writeMarker
    rw [wrote.contained, wrote.named]
    simp only [Bool.not_true, Bool.false_eq_true, if_false,
      takeWhile_inits wrote.plain, wrote.makes, wrote.plain, wrote.writes]

namespace Wrote

variable {content : Text} {dir : Path} {made : Tree}
  (wrote : Wrote compose tree after marker content service dir made)
include wrote

theorem noFolder : made.isFolder (dir ++ [marker.fileName]) = false :=
  (FileTree.writeFile_isSome_iff.mp ⟨after, wrote.writes⟩).2

theorem sameFolders : SameFolders after made := by
  refine SameFolders.of_markers marker fun path different => ?_
  have here := FileTree.lookup_writeFile wrote.writes path
  by_cases isMarker : path = dir ++ [marker.fileName]
  · subst isMarker
    refine ⟨⟨dir, rfl⟩, ?_, wrote.noFolder⟩
    rw [if_pos rfl] at here
    rw [Bool.eq_false_iff, Ne, isFolder_iff, here]
    simp
  · rw [if_neg isMarker] at here
    exact absurd here different

theorem isFile_iff (path : Path) :
    after.isFile path = true ↔
      path = dir ++ [marker.fileName] ∨ made.isFile path = true := by
  have here := FileTree.lookup_writeFile wrote.writes path
  by_cases isMarker : path = dir ++ [marker.fileName]
  · rw [if_pos isMarker] at here
    rw [Docker.isFile_iff, here]
    simp [isMarker]
  · rw [if_neg isMarker] at here
    rw [FileTree.isFile_congr here]
    simp [isMarker]

end Wrote

/-- Whether a toggle that writes returns or dies, it changes no more. -/
theorem writeMarker_changes
    {usage content action : Text} {state : Text × Bool}
    (changes :
      (compose.writeMarker tree usage content action state marker
          service).left.entries.lookup path ≠
        tree.entries.lookup path) :
    ∃ dir,
      containedServicePath (compose.serviceToggleRoot tree) service =
          some dir ∧
        (path = dir ++ [marker.fileName] ∨
          path <+: dir ∧ tree.entries.lookup path = none ∧
            (compose.writeMarker tree usage content action state marker
              service).left.isFolder path = true) := by
  have made {dir : Path} {left : Tree}
      (leaves :
        tree.makePath (dir.inits.takeWhile isPathText) = .ok left ∨
          tree.makePath (dir.inits.takeWhile isPathText) = .error left)
      (different : left.entries.lookup path ≠ tree.entries.lookup path) :
      path <+: dir ∧ tree.entries.lookup path = none ∧
        left.isFolder path = true := by
    obtain ⟨isIn, absent, folder⟩ :=
      FileTree.made_of_makePath leaves different
    exact ⟨(List.mem_inits path dir).mp
      ((List.takeWhile_sublist _).subset isIn), absent,
      isFolder_iff.mpr folder⟩
  unfold writeMarker at changes ⊢
  by_cases named : (!isTrue service) = true
  · simp only [named, if_true] at changes
    exact absurd rfl changes
  simp only [named, if_false] at changes ⊢
  cases contained :
      containedServicePath (compose.serviceToggleRoot tree) service with
  | none =>
    simp only [contained] at changes
    exact absurd rfl changes
  | some dir =>
  refine ⟨dir, rfl, ?_⟩
  simp only [contained] at changes ⊢
  cases makes : tree.makePath (dir.inits.takeWhile isPathText) with
  | error left =>
    simp only [makes] at changes ⊢
    exact Or.inr (made (Or.inr makes) changes)
  | ok middle =>
  simp only [makes] at changes ⊢
  by_cases taken : (!isPathText dir) = true
  · simp only [taken, if_true] at changes ⊢
    exact Or.inr (made (Or.inl makes) changes)
  simp only [taken, if_false] at changes ⊢
  cases writes : middle.writeFile (dir ++ [marker.fileName]) content with
  | none =>
    simp only [writes] at changes ⊢
    exact Or.inr (made (Or.inl makes) changes)
  | some written =>
  simp only [writes] at changes ⊢
  have here := FileTree.lookup_writeFile writes path
  by_cases isMarker : path = dir ++ [marker.fileName]
  · exact Or.inl isMarker
  · rw [if_neg isMarker] at here
    change written.entries.lookup path ≠ _ at changes
    rw [here] at changes
    obtain ⟨isPrefix, absent, folder⟩ := made (Or.inl makes) changes
    exact Or.inr ⟨isPrefix, absent,
      (FileTree.isFolder_congr here).trans folder⟩

theorem lookup_removeMarkers {left : Tree}
    (returned : removeMarkers marker names tree roots = .ok left)
    (path : Path) :
    left.entries.lookup path =
      if path ∈ roots.map (markerBelow marker names) then none
      else tree.entries.lookup path := by
  induction roots generalizing tree with
  | nil =>
    obtain rfl := Except.ok.inj returned
    rfl
  | cons root rest ih =>
    rw [List.map_cons]
    simp only [List.mem_cons]
    unfold removeMarkers at returned
    split at returned
    · next absent =>
        rw [ih returned]
        by_cases later : path ∈ rest.map (markerBelow marker names)
        · rw [if_pos later, if_pos (Or.inr later)]
        · rw [if_neg later]
          by_cases here : path = markerBelow marker names root
          · rw [if_pos (Or.inl here), here]
            exact Option.isNone_iff_eq_none.mp absent
          · rw [if_neg (not_or.mpr ⟨here, later⟩)]
    · split at returned
      · cases returned
      · next next removes =>
          rw [ih returned]
          have removed := FileTree.lookup_removeFile removes path
          by_cases later : path ∈ rest.map (markerBelow marker names)
          · rw [if_pos later, if_pos (Or.inr later)]
          · rw [if_neg later, removed]
            by_cases here : path = markerBelow marker names root
            · rw [if_pos (Or.inl here)]
              exact if_pos here
            · rw [if_neg (not_or.mpr ⟨here, later⟩)]
              exact if_neg here

/-- Unlinking returns unless one of the markers is a folder. -/
theorem exists_removeMarkers_iff :
    (∃ left, removeMarkers marker names tree roots = .ok left) ↔
      ∀ root ∈ roots, tree.isFolder (markerBelow marker names root) = false := by
  induction roots generalizing tree with
  | nil => simp [removeMarkers]
  | cons root rest ih =>
    rw [List.forall_mem_cons]
    unfold removeMarkers
    split
    · next absent =>
        rw [ih]
        refine (and_iff_right ?_).symm
        rw [Bool.eq_false_iff, Ne, isFolder_iff,
          Option.isNone_iff_eq_none.mp absent]
        simp
    · split
      · next fails =>
          have isFolder :
              tree.isFolder (markerBelow marker names root) = true := by
            by_contra noFolder
            rw [Bool.not_eq_true] at noFolder
            simp [FileTree.removeFile, noFolder] at fails
          simp [isFolder]
      · next left removes =>
          have noFolder := FileTree.isFolder_of_removeFile removes
          rw [ih, and_iff_right noFolder]
          refine forall₂_congr fun other _ => iff_of_eq ?_
          congr 1
          by_cases same :
              markerBelow marker names other =
                markerBelow marker names root
          · rw [same, noFolder, Bool.eq_false_iff, Ne, isFolder_iff,
              FileTree.lookup_removeFile removes, if_pos rfl]
            simp
          · refine FileTree.isFolder_congr ?_
            rw [FileTree.lookup_removeFile removes, if_neg same]

/-- Whether unlinking returns or dies, it changes no more. -/
theorem removeMarkers_changes {left : Tree}
    (leaves :
      removeMarkers marker names tree roots = .ok left ∨
        ∃ error, removeMarkers marker names tree roots = .error (error, left))
    (changes : left.entries.lookup path ≠ tree.entries.lookup path) :
    path ∈ roots.map (markerBelow marker names) ∧
      left.entries.lookup path = none := by
  induction roots generalizing tree with
  | nil =>
    rcases leaves with returned | ⟨error, dies⟩
    · obtain rfl := Except.ok.inj returned
      exact absurd rfl changes
    · cases dies
  | cons root rest ih =>
    rw [List.map_cons, List.mem_cons]
    unfold removeMarkers at leaves
    split at leaves
    · obtain ⟨later, gone⟩ := ih leaves changes
      exact ⟨Or.inr later, gone⟩
    · split at leaves
      · rcases leaves with returned | ⟨error, dies⟩
        · cases returned
        · obtain ⟨-, rfl⟩ := Prod.mk.inj (Except.error.inj dies)
          exact absurd rfl changes
      · next next removes =>
          have removed := FileTree.lookup_removeFile removes path
          by_cases again :
              left.entries.lookup path = next.entries.lookup path
          · by_cases here : path = markerBelow marker names root
            · refine ⟨Or.inl here, ?_⟩
              rw [again, removed]
              exact if_pos here
            · rw [again, removed, if_neg here] at changes
              exact absurd rfl changes
          · obtain ⟨later, gone⟩ := ih leaves again
            exact ⟨Or.inr later, gone⟩

end DockerCompose

end DeveloperDashboard.Docker
