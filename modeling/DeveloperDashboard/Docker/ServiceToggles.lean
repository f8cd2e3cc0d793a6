import DeveloperDashboard.Docker.ServiceFolders
import DeveloperDashboard.Skills.SkillLayers
import Mathlib.Algebra.Order.BigOperators.Group.List
import Mathlib.Algebra.Order.Group.Nat

namespace DeveloperDashboard.Docker

open Library Perl Skills

/-!
# Toggles of services

A toggle writes a marker into the folder of a service in the home layer, or
unlinks it from the folders of all docker roots that have one.  It resolves the
name of the service by itself, and both slashes separate the names in it.
-/

inductive ToggleError where
  | usage (text : Text)
  /-- `Missing service` -/
  | missingService
  /-- `Refusing service name that escapes the docker config root` -/
  | refused (service : Text)
  /-- `make_path` fails. -/
  | unableToMake (dir : Path)
  | unableToWrite (marker : Path)
  | unableToRemove (marker : Path)
deriving DecidableEq

structure ToggleReport where
  action : Text
  /-- `disabled` or `development`, with its value. -/
  state : Text × Bool
  marker : Path
  service : Text
deriving DecidableEq

/-- A toggle returns, or dies; both leave the files in some state. -/
abbrev Toggled :=
  Except (ToggleError × Tree) (ToggleReport × Tree)

def Toggled.left : Toggled → Tree
  | .ok (_, tree) => tree
  | .error (_, tree) => tree

def isPathText (path : Path) : Bool :=
  path.all fun name => decide ('\x00' ∉ name)

namespace DockerCompose

variable (compose : DockerCompose) (tree : Tree)

def writeMarker (usage content : Text) (action : Text) (state : Text × Bool)
    (marker : Marker) (service : Text) :
    Toggled :=
  if !isTrue service then .error (.usage usage, tree)
  else
    match containedServicePath (compose.serviceToggleRoot tree) service with
    | none => .error (.refused service, tree)
    | some dir =>
      match tree.makePath (dir.inits.takeWhile isPathText) with
      | .error left => .error (.unableToMake dir, left)
      | .ok made =>
        if !isPathText dir then .error (.unableToMake dir, made)
        else
          match made.writeFile (dir ++ [marker.fileName]) content with
          | none =>
            .error (.unableToWrite (dir ++ [marker.fileName]), made)
          | some written =>
            .ok
              (⟨action, state, dir ++ [marker.fileName], service⟩, written)

/-- `disable_service`. -/
def disableService (service : Text) : Toggled :=
  compose.writeMarker tree "Usage: dashboard docker disable <service>\n".toList
    "---\ndisabled: 1\n".toList "disable".toList ("disabled".toList, true)
    .disabled service

/-- `enable_service_development`. -/
def enableServiceDevelopment (service : Text) : Toggled :=
  compose.writeMarker tree
    "Usage: dashboard docker development enable <service>\n".toList
    "---\ndevelopment: 1\n".toList "development-enable".toList
    ("development".toList, true) .develop service

def markerBelow (marker : Marker) (names : List Text) (root : Path) : Path :=
  root ++ names ++ [marker.fileName]

/-- The loop of `_remove_service_layer_markers`. -/
def removeMarkers (marker : Marker) (names : List Text) :
    Tree → List Path → Except (ToggleError × Tree) Tree
  | tree, [] => .ok tree
  | tree, root :: rest =>
    if (tree.entries.lookup (markerBelow marker names root)).isNone then
      removeMarkers marker names tree rest
    else
      match tree.removeFile (markerBelow marker names root) with
      | none =>
        .error (.unableToRemove (markerBelow marker names root), tree)
      | some left => removeMarkers marker names left rest

/-- `_remove_service_layer_markers`. -/
def removeServiceLayerMarkers (marker : Marker) (service : Text) :
    Except (ToggleError × Tree) Tree :=
  if !isTrue service then .error (.missingService, tree)
  else
    match compose.serviceLookupRoots tree service with
    | [] => .ok tree
    | root :: rest =>
      match containedNames service with
      | none => .error (.refused service, tree)
      | some names => removeMarkers marker names tree (root :: rest)

def unlinkMarkers (usage : Text) (action : Text) (state : Text × Bool)
    (marker : Marker) (service : Text) :
    Toggled :=
  if !isTrue service then .error (.usage usage, tree)
  else
    match compose.serviceMarkerPath tree marker service with
    | none => .error (.refused service, tree)
    | some path =>
      (compose.removeServiceLayerMarkers tree marker service).map
        fun left => (⟨action, state, path, service⟩, left)

/-- `enable_service`. -/
def enableService (service : Text) : Toggled :=
  compose.unlinkMarkers tree "Usage: dashboard docker enable <service>\n".toList
    "enable".toList ("disabled".toList, false) .disabled service

/-- `disable_service_development`. -/
def disableServiceDevelopment (service : Text) : Toggled :=
  compose.unlinkMarkers tree
    "Usage: dashboard docker development disable <service>\n".toList
    "development-disable".toList ("development".toList, false) .develop
    service

end DockerCompose

/-!
# Trees with the same folders

The layers, the docker roots and the folder of a service depend only on which
folders there are and which skills are disabled.  So writing or unlinking a
marker leaves them as they are.
-/

structure SameFolders (one other : Tree) : Prop where
  folder : ∀ path, one.isFolder path = other.isFolder path
  disabled :
    ∀ path,
      one.isFile (path ++ [".disabled".toList]) =
        other.isFile (path ++ [".disabled".toList])

namespace SameFolders

variable {one other : Tree} (same : SameFolders one other)
include same

theorem folderNames (folder : Path) :
    folderNames one folder = folderNames other folder := by
  refine List.Perm.eq_of_pairwise'
    (List.pairwise_insertionSort (· ≤ ·) _)
    (List.pairwise_insertionSort (· ≤ ·) _) ?_
  refine (List.perm_ext_iff_of_nodup
    (PathRegistry.nodup_folderNames ⟨one, []⟩ folder)
    (PathRegistry.nodup_folderNames ⟨other, []⟩ folder)).mpr fun name => ?_
  rw [PathRegistry.mem_folderNames_iff, PathRegistry.mem_folderNames_iff]
  exact iff_of_eq (congrArg (· = true) (same.folder _))

theorem runtimeLayers (compose : DockerCompose) :
    compose.runtimeLayers one = compose.runtimeLayers other := by
  have folders : one.isFolder = other.isFolder := funext same.folder
  unfold DockerCompose.runtimeLayers DockerCompose.ancestorRuntimeLayers
    DockerCompose.homeRuntimeRoot layerDirFor existingLayerDirsFor
  rw [folders]

theorem enabledSkillRoots (parent : Path) :
    enabledSkillRoots one parent = enabledSkillRoots other parent := by
  have chains : skillRootChainDisabled one = skillRootChainDisabled other := by
    funext skillRoot
    unfold skillRootChainDisabled
    simp only [same.disabled]
  unfold Docker.enabledSkillRoots
  rw [same.folderNames, chains]

theorem nestedFolders : nestedFolders one = nestedFolders other := by
  funext parent
  unfold Docker.nestedFolders
  rw [same.enabledSkillRoots, funext same.folder]

end SameFolders

/-- The folders of skills that a walk goes on with weigh less. -/
theorem sum_folderWeight_lt (tree : Tree) (parent : Path) :
    ((nestedFolders tree parent).map (folderWeight tree)).sum <
      folderWeight tree parent := by
  let names := folderNames tree parent
  have each :
      ∀ name ∈ names,
        folderWeight tree (skillsFolder (parent ++ [name])) ≤
          tree.weight (parent ++ [name]) := by
    intro name member
    have below :=
      FileTree.weight_child_lt (PathRegistry.mem_folderNames_iff.mp member)
        "skills".toList
    rw [folderWeight, Nat.add_comm]
    exact below
  have part :
      (nestedFolders tree parent).Sublist
        (names.map fun name => skillsFolder (parent ++ [name])) := by
    refine List.filter_sublist.trans ?_
    rw [← Function.comp_def, ← List.map_map]
    exact List.filter_sublist.map _
  cases isFolder : tree.isFolder parent with
  | false =>
    have none_ : names = [] := by
      rw [List.eq_nil_iff_forall_not_mem]
      intro name member
      have inside := FileTree.isFolder_parent
        (PathRegistry.mem_folderNames_iff.mp member)
      exact Bool.false_ne_true (isFolder.symm.trans inside)
    rw [none_, List.map_nil] at part
    rw [List.sublist_nil.mp part]
    exact Nat.add_pos_left Nat.one_pos _
  | true =>
    calc
      _ ≤ ((names.map fun name => skillsFolder (parent ++ [name])).map
            (folderWeight tree)).sum :=
        (part.map _).sum_le_sum fun _ _ => Nat.zero_le _
      _ ≤ (names.map fun name => tree.weight (parent ++ [name])).sum := by
        rw [List.map_map]
        exact List.sum_le_sum each
      _ < tree.weight parent :=
        FileTree.sum_weight_lt isFolder
          (PathRegistry.nodup_folderNames _ _)
      _ ≤ folderWeight tree parent := Nat.le_add_left _ _

namespace SameFolders

variable {one other : Tree} (same : SameFolders one other)
include same

theorem installedSkillDockerRoots (layer : Path) :
    installedSkillDockerRoots one layer =
      installedSkillDockerRoots other layer := by
  have walks :
      BreadthFirst.walk (Docker.nestedFolders one)
          (folderWeight one (skillsFolder layer)) [skillsFolder layer] =
        BreadthFirst.walk (Docker.nestedFolders other)
          (folderWeight other (skillsFolder layer)) [skillsFolder layer] := by
    let fuel :=
      max (folderWeight one (skillsFolder layer))
        (folderWeight other (skillsFolder layer))
    calc
      _ = BreadthFirst.walk (Docker.nestedFolders one) fuel
            [skillsFolder layer] :=
        BreadthFirst.walk_of_enough _ (sum_folderWeight_lt one) (by simp)
          (by simp [fuel])
      _ = BreadthFirst.walk (Docker.nestedFolders other) fuel
            [skillsFolder layer] := by
        rw [same.nestedFolders]
      _ = _ :=
        (BreadthFirst.walk_of_enough _ (sum_folderWeight_lt other) (by simp)
          (by simp [fuel])).symm
  unfold Docker.installedSkillDockerRoots
  dsimp only
  rw [same.folder, walks, funext same.enabledSkillRoots]

variable (compose : DockerCompose)

theorem dockerRoots :
    compose.dockerRoots one = compose.dockerRoots other := by
  unfold DockerCompose.dockerRoots
  rw [same.runtimeLayers, funext same.installedSkillDockerRoots]

theorem serviceFolder (root : Path) (service : Text) :
    DockerCompose.serviceFolder one root service =
      DockerCompose.serviceFolder other root service := by
  unfold DockerCompose.serviceFolder
  rw [FileTree.walk_congr same.folder]

end SameFolders

end DeveloperDashboard.Docker
