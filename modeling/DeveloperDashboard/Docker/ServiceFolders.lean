import DeveloperDashboard.Library.FileTreeEdits
import DeveloperDashboard.Skills.InstalledSkills

namespace DeveloperDashboard.Docker

open Library Perl Skills

/-!
# Service folders

A compose service has a folder in the docker roots of the runtime layers and of
the skills that are installed in them.  Readers put the name of a service
behind each root, and let the system find the way.
-/

abbrev Tree :=
  FileTree Text Text

def parentName : Text :=
  "..".toList

/-- The names in a text between separators, without the empty ones and `.`. -/
def pathNames (isSeparator : Char → Bool) (text : Text) : List Text :=
  (text.splitOnP isSeparator).filter fun name =>
    decide (name ≠ [] ∧ name ≠ ['.'])

def folderNames (tree : Tree) (folder : Path) : List Text :=
  PathRegistry.folderNames ⟨tree, []⟩ folder

/-- What a `DockerCompose` object and its registry know. -/
structure DockerCompose where
  home : Path
  /-- `_runtime_layers_from_env` -/
  envLayers : List Path
  /-- The directories that `_ancestor_runtime_layers` goes through, from the
  outermost to the working directory. -/
  scannedDirs : List Path
  /-- The keys of the `services` of the docker configuration. -/
  services : List Text

def primaryLayer (parent : Path) : Path :=
  parent ++ [".developer-dashboard".toList]

def aliasLayer (parent : Path) : Path :=
  parent ++ [".d2".toList]

/-- `_layer_dir_for`. -/
def layerDirFor (tree : Tree) (parent : Path) : Path :=
  if !tree.isFolder (primaryLayer parent) &&
      tree.isFolder (aliasLayer parent) then
    aliasLayer parent
  else primaryLayer parent

/-- `_existing_layer_dirs_for`. -/
def existingLayerDirsFor (tree : Tree) (parent : Path) : List Path :=
  [primaryLayer parent, aliasLayer parent].filter tree.isFolder

namespace DockerCompose

variable (compose : DockerCompose)

/-- `home_runtime_root`. -/
def homeRuntimeRoot (tree : Tree) : Path :=
  layerDirFor tree compose.home

/-- `_ancestor_runtime_layers`. -/
def ancestorRuntimeLayers (tree : Tree) : List Path :=
  (compose.scannedDirs.flatMap fun dir =>
    (existingLayerDirsFor tree dir).reverse).filter fun layer =>
      decide (layer ∉ compose.homeRuntimeRoot tree ::
        existingLayerDirsFor tree compose.home)

/-- `runtime_layers`. -/
def runtimeLayers (tree : Tree) : List Path :=
  (compose.envLayers ++
    (existingLayerDirsFor tree compose.home).reverse ++
    [compose.homeRuntimeRoot tree] ++
    compose.ancestorRuntimeLayers tree).eraseDups

end DockerCompose

def dockerRoot (dir : Path) : Path :=
  dir ++ ["config".toList, "docker".toList]

/-- `_skill_root_chain_disabled`. -/
def skillRootChainDisabled (tree : Tree) (skillRoot : Path) : Bool :=
  (List.range (skillRoot.length - 1)).any fun index =>
    decide (skillRoot[index]? = some "skills".toList) &&
      tree.isFile (skillRoot.take (index + 2) ++ [".disabled".toList])

def enabledSkillRoots (tree : Tree) (parent : Path) : List Path :=
  ((folderNames tree parent).map fun name => parent ++ [name]).filter
    fun skillRoot => !skillRootChainDisabled tree skillRoot

def skillsFolder (dir : Path) : Path :=
  dir ++ ["skills".toList]

/-- The folders that are put into the queue for a folder of skills. -/
def nestedFolders (tree : Tree) (parent : Path) : List Path :=
  ((enabledSkillRoots tree parent).map skillsFolder).filter tree.isFolder

def folderWeight (tree : Tree) (parent : Path) : Nat :=
  1 + tree.weight parent

/-- `_installed_skill_docker_roots_for_runtime`. -/
def installedSkillDockerRoots (tree : Tree) (runtimeRoot : Path) :
    List Path :=
  let skillsRoot := skillsFolder runtimeRoot
  if tree.isFolder skillsRoot then
    (BreadthFirst.walk (nestedFolders tree) (folderWeight tree skillsRoot)
      [skillsRoot]).flatMap fun parent =>
        (enabledSkillRoots tree parent).map dockerRoot
  else []

namespace DockerCompose

variable (compose : DockerCompose) (tree : Tree)

/-- The roots that `_service_lookup_roots` goes through. -/
def dockerRoots : List Path :=
  ((compose.runtimeLayers tree).flatMap fun layer =>
    dockerRoot layer :: installedSkillDockerRoots tree layer).eraseDups

/-- Where the system gets from a root by the name of a service. -/
def serviceFolder (root : Path) (service : Text) : Option Path :=
  if '\x00' ∈ service then none
  else tree.walk parentName root (pathNames (· = '/') service)

/-- `-d` of the folder of a service. -/
def hasServiceFolder (service : Text) (root : Path) : Bool :=
  (serviceFolder tree root service).any tree.isFolder

/-- `-f` of a file in the folder of a service. -/
def hasServiceFile (service file : Text) (root : Path) : Bool :=
  (serviceFolder tree root service).any fun dir =>
    tree.isFile (dir ++ [file])

/-- `_service_lookup_roots`. -/
def serviceLookupRoots (service : Text) : List Path :=
  if !isTrue service then []
  else if service = "__all__".toList then compose.dockerRoots tree
  else (compose.dockerRoots tree).filter (hasServiceFolder tree service)

end DockerCompose

inductive Marker where
  | disabled
  | develop
deriving DecidableEq

def Marker.fileName : Marker → Text
  | disabled => "disabled.yml".toList
  | develop => "develop.yml".toList

namespace DockerCompose

variable (compose : DockerCompose) (tree : Tree)

def serviceFolderIsMarked (marker : Marker) (service : Text) : Bool :=
  isTrue service &&
    (compose.serviceLookupRoots tree service).any
      (hasServiceFile tree service marker.fileName)

/-- `_service_folder_is_disabled`. -/
def serviceFolderIsDisabled (service : Text) : Bool :=
  compose.serviceFolderIsMarked tree .disabled service

/-- `_service_folder_is_development`. -/
def serviceFolderIsDevelopment (service : Text) : Bool :=
  compose.serviceFolderIsMarked tree .develop service

def servicePath (root : Path) (service file : Text) : Path :=
  root ++ pathNames (· = '/') service ++ [file]

def rootFiles (development : Bool) (service : Text) (root : Path) :
    List Path :=
  let files :=
    if development then
      ["compose.yml".toList, "development.compose.yml".toList]
    else ["compose.yml".toList]
  (files.filter fun file => hasServiceFile tree service file root).map
    (servicePath root service)

def serviceFiles (development : Bool) (service : Text) : List Path :=
  ((compose.serviceLookupRoots tree service).flatMap
    (rootFiles tree development service)).eraseDups

/-- `_discover_service_files`. -/
def discoverServiceFiles (service : Text) : List Path :=
  if !isTrue service || compose.serviceFolderIsDisabled tree service then []
  else
    compose.serviceFiles tree
      (compose.serviceFolderIsDevelopment tree service) service

/-- `_discover_service_names`, of the services of the configuration. -/
def discoverServiceNames : List Text :=
  ((compose.services.filter fun name => decide (name ≠ [])) ++
    ((compose.serviceLookupRoots tree "__all__".toList).filter
      tree.isFolder).flatMap (folderNames tree)).dedup.insertionSort (· ≤ ·)

/-- The loop of `_contained_service_path` over the names. -/
def resolveNames : List Text → List Text → Option (List Text)
  | resolved, [] => if resolved = [] then none else some resolved
  | resolved, name :: rest =>
    if name = parentName then
      if resolved = [] then none
      else resolveNames resolved.dropLast rest
    else resolveNames (resolved ++ [name]) rest

/-- What `_contained_service_path` puts behind the root. -/
def containedNames (service : Text) : Option (List Text) :=
  resolveNames [] (pathNames (fun char => char = '\\' || char = '/') service)

/-- `_contained_service_path`. -/
def containedServicePath (root : Path) (service : Text) : Option Path :=
  (containedNames service).map (root ++ ·)

/-- `_service_toggle_root`. -/
def serviceToggleRoot : Path :=
  dockerRoot (compose.homeRuntimeRoot tree)

/-- `_service_disabled_marker_path` and `_service_development_marker_path`. -/
def serviceMarkerPath (marker : Marker) (service : Text) : Option Path :=
  (containedServicePath (compose.serviceToggleRoot tree) service).map
    fun dir => dir ++ [marker.fileName]

/-- An item of `list_services`. -/
structure ListedService where
  disabled : Bool
  enabled : Bool
  marker : Option Path
  service : Text
  status : Text

/-- Why `list_services` dies. -/
inductive ListError where
  /-- `Usage: dashboard docker list [--enabled|--disabled]` -/
  | usage
  /-- `Missing service` -/
  | missingService

/-- The item of a service, when the filter lets it through. -/
def listService (filter : Text) (service : Text) :
    Except ListError (Option ListedService) :=
  let disabled := compose.serviceFolderIsDisabled tree service
  if (filter = "enabled".toList && disabled) ||
      (filter = "disabled".toList && !disabled) then .ok none
  else if !isTrue service then .error .missingService
  else
    .ok (some
      { disabled := disabled
        enabled := !disabled
        marker := compose.serviceMarkerPath tree .disabled service
        service := service
        status :=
          if disabled then "disabled".toList else "enabled".toList })

/-- `list_services`. -/
def listServices (filter : Option Text) :
    Except ListError (List ListedService) :=
  let filter := (filter.filter fun text => decide (text ≠ [])).getD
    "all".toList
  if ["all".toList, "enabled".toList, "disabled".toList].any fun mode =>
      decide (mode = filter) then
    ((compose.discoverServiceNames tree).mapM
      (compose.listService tree filter)).map fun listed =>
        listed.reduceOption
  else .error .usage

end DockerCompose

end DeveloperDashboard.Docker
