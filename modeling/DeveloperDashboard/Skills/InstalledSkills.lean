import DeveloperDashboard.Library.FileTree
import DeveloperDashboard.Perl.Text
import Mathlib.Data.List.Sort
import DeveloperDashboard.Library.BreadthFirst

namespace DeveloperDashboard.Skills

open Library Perl

/-!
# Installed skills

Every runtime root has a directory of skills, and a skill is layered over the
roots, the deepest first.  `skill_layers` looks one name up, fresh or in the
inventory of a scope; `installed_skill_entries` and `installed_skill_roots`
enumerate all of them.
-/

/-- A path, by its names from the root of the file system on. -/
abbrev Path :=
  List Text

/-- `split m{/+}, $path, -1`, of a path that starts with no slash. -/
def splitSlashes (path : Text) : List Text :=
  let parts := path.splitOn '/'
  parts.dropLast.filter (fun part => decide (part ≠ [])) ++
    parts.getLast?.toList

/-- The class `[\x00-\x1F\x7F]`. -/
def isControl (char : Char) : Bool :=
  decide (char.toNat ≤ 0x1F) || decide (char.toNat = 0x7F)

/-- The pattern `\A[A-Za-z]:`. -/
def hasDrivePrefix : Text → Bool
  | letter :: ':' :: _ => letter.isAlpha
  | _ => false

/-- `validated_path_segments`. -/
def validatedPathSegments (path : Text) : List Text :=
  if path = [] then []
  else if path.any isControl then []
  else if '\\' ∈ path then []
  else if path.head? = some '/' then []
  else if hasDrivePrefix path then []
  else
    let segments := splitSlashes path
    if segments.any fun segment =>
        decide (segment = [] ∨ segment = ['.'] ∨ segment = ['.', '.']) then []
    else segments

/-- The file system and the skills roots of a path registry. -/
structure PathRegistry (Content : Type) where
  tree : FileTree Text Content
  skillsRoots : List Path

variable {Content : Type}

namespace PathRegistry

/-- `_skill_is_disabled`. -/
def isDisabled (paths : PathRegistry Content) (skillRoot : Path) : Bool :=
  paths.tree.isFile (skillRoot ++ [".disabled".toList])

def folderNames (paths : PathRegistry Content) (folder : Path) :
    List Text :=
  ((paths.tree.names folder).filter fun name =>
    paths.tree.isFolder (folder ++ [name])).insertionSort (· ≤ ·)

structure SkillsDirectory where
  skillsRoot : Path
  names : List Text

/-- The set `name_set` of a directory. -/
def SkillsDirectory.hasName (directory : SkillsDirectory) (name : Text) :
    Bool :=
  directory.names.any fun other => decide (other = name)

/-- `_installed_skill_directory_inventory` outside a scope. -/
def directoryInventory (paths : PathRegistry Content) :
    List SkillsDirectory :=
  (paths.skillsRoots.filter paths.tree.isFolder).map fun root =>
    ⟨root, paths.folderNames root⟩

/--
The loop of `skill_layers`: the roots that take part, from the deepest on, or
nothing when the deepest that exists is disabled.
-/
def collectLayers (paths : PathRegistry Content) (includeDisabled : Bool) :
    Bool → List Path → Option (List Path)
  | _, [] => some []
  | sawEffective, skillRoot :: rest =>
    if !paths.tree.isFolder skillRoot then
      paths.collectLayers includeDisabled sawEffective rest
    else if !sawEffective && !includeDisabled &&
        paths.isDisabled skillRoot then none
    else if !includeDisabled && paths.isDisabled skillRoot then
      paths.collectLayers includeDisabled true rest
    else
      (paths.collectLayers includeDisabled true rest).map
        (skillRoot :: ·)

def layersOf (paths : PathRegistry Content) (includeDisabled : Bool)
    (skillRoots : List Path) :
    List Path :=
  ((paths.collectLayers includeDisabled false skillRoots).getD []).reverse

/-- `skill_layers` outside a scope. -/
def skillLayers (paths : PathRegistry Content) (includeDisabled : Bool)
    (name : Text) :
    List Path :=
  if (validatedPathSegments name).length ≠ 1 then []
  else
    paths.layersOf includeDisabled
      (paths.skillsRoots.map fun root => root ++ [name])

/--
What a scope has cached: the directory names, and the segments of names that
were looked up.
-/
structure InventoryScope (paths : PathRegistry Content) where
  directories : Option (List SkillsDirectory)
  segments : Entries Text (List Text)
  directories_eq :
    ∀ cached, directories = some cached → cached = paths.directoryInventory
  segments_eq :
    ∀ name cached,
      segments.lookup name = some cached →
        cached = validatedPathSegments name

namespace InventoryScope

variable {paths : PathRegistry Content}

def empty (paths : PathRegistry Content) : InventoryScope paths where
  directories := none
  segments := []
  directories_eq := nofun
  segments_eq := nofun

/-- `_installed_skill_directory_inventory` in a scope. -/
def directoryInventory (scope : InventoryScope paths) :
    List SkillsDirectory × InventoryScope paths :=
  match scope.directories with
  | some cached => (cached, scope)
  | none =>
    (paths.directoryInventory, { scope with
        directories := some paths.directoryInventory
        directories_eq := fun _ same => (Option.some.inj same).symm })

def nameSegments (scope : InventoryScope paths) (name : Text) :
    List Text × InventoryScope paths :=
  match scope.segments.lookup name with
  | some cached => (cached, scope)
  | none =>
    let found := validatedPathSegments name
    if name.length ≤ 4096 ∧ scope.segments.length < 512 then
      (found, { scope with
          segments := scope.segments.store name found
          segments_eq := by
            intro other cached read
            by_cases same : name = other
            · subst same
              rw [Entries.lookup_store_self] at read
              exact (Option.some.inj read).symm
            · rw [Entries.lookup_store_of_ne _ same] at read
              exact scope.segments_eq other cached read })
    else (found, scope)

/-- `skill_layers` in a scope. -/
def skillLayers (scope : InventoryScope paths) (includeDisabled : Bool)
    (name : Text) :
    List Path × InventoryScope paths :=
  if name = [] then ([], scope)
  else
    let (segments, scope) := scope.nameSegments name
    if segments.length ≠ 1 then ([], scope)
    else
      let (directories, scope) := scope.directoryInventory
      let skillRoots :=
        (directories.filter fun directory =>
            directory.hasName name).map fun directory =>
          directory.skillsRoot ++ [name]
      (paths.layersOf includeDisabled skillRoots, scope)

end InventoryScope

def listedRoots (directories : List SkillsDirectory) :
    List (Text × Path) :=
  directories.flatMap fun directory =>
    directory.names.map fun name =>
      (name, directory.skillsRoot ++ [name])

/-- One pass of the inner loop of `installed_skill_roots`. -/
def addRoot (paths : PathRegistry Content) (includeDisabled : Bool)
    (found : List Text × List Path) (listed : Text × Path) :
    List Text × List Path :=
  let (seenNames, roots) := found
  if seenNames.any fun name => decide (name = listed.1) then found
  else if !includeDisabled && paths.isDisabled listed.2 then
    (seenNames ++ [listed.1], roots)
  else (seenNames ++ [listed.1], roots ++ [listed.2])

/-- `installed_skill_roots`, of an inventory. -/
def installedSkillRoots (paths : PathRegistry Content)
    (includeDisabled : Bool) (directories : List SkillsDirectory) :
    List Path :=
  ((listedRoots directories).foldl (paths.addRoot includeDisabled)
    ([], [])).2

/-- An entry while the layers are collected, the deepest first. -/
structure CollectedEntry where
  skillRoot : Path
  layers : List Path
  masked : Bool

def CollectedEntry.addLayer (paths : PathRegistry Content)
    (includeDisabled : Bool) (root : Path) (entry : CollectedEntry) :
    CollectedEntry :=
  if entry.masked then entry
  else if !includeDisabled && paths.isDisabled root then entry
  else { entry with layers := entry.layers ++ [root] }

/-- The entry of a name when its first directory is met. -/
def newEntry
    (paths : PathRegistry Content) (includeDisabled : Bool) (root : Path) :
    CollectedEntry :=
  ⟨root, [], paths.isDisabled root && !includeDisabled⟩

/-- One pass of the inner loop of `installed_skill_entries`. -/
def addEntry (paths : PathRegistry Content) (includeDisabled : Bool)
    (entries : Entries Text CollectedEntry) (listed : Text × Path) :
    Entries Text CollectedEntry :=
  entries.upsert listed.1 fun found =>
    (found.getD (paths.newEntry includeDisabled listed.2)).addLayer paths
      includeDisabled listed.2

/-- An installed skill with its layers from home to the deepest. -/
structure SkillEntry where
  skillName : Text
  skillRoot : Path
  layers : List Path

def visibleEntry (collected : Text × CollectedEntry) : Option SkillEntry :=
  if collected.2.layers = [] then none
  else
    some
      ⟨collected.1, collected.2.skillRoot, collected.2.layers.reverse⟩

/-- `installed_skill_entries`, of an inventory. -/
def installedSkillEntries (paths : PathRegistry Content)
    (includeDisabled : Bool) (directories : List SkillsDirectory) :
    List SkillEntry :=
  ((listedRoots directories).foldl (paths.addEntry includeDisabled)
    []).filterMap visibleEntry

end PathRegistry

/-!
# Nested skills

A skill has skills of its own below its directory `skills`.  Discovery walks
from the installed roots and carries along where the aliases of each skill may
be written; resolution follows the segments of one name and walks back.
-/

inductive WriteLocation where
  | skill (dir : Path) (remaining : List Text)
  | global (remaining : List Text)
  deriving DecidableEq

variable {Content : Type}

namespace PathRegistry

/-- A node of the queue of `nested_skill_entries`. -/
structure NestedNode where
  segments : List Text
  dir : Path
  configChainValid : Bool
  /-- `config_parent_dir` and `config_parent_depth` -/
  configParent : Option (Path × Nat)
  disabled : Bool

/-- An entry of `nested_skill_entries`. -/
structure NestedEntry where
  segments : List Text
  dir : Path
  disabled : Option Bool
  configWriteLocation : Option WriteLocation

/-- The flags of `nested_skill_entries`. -/
structure NestedOptions where
  includeDisabled : Bool
  includeConfigWriteLocation : Bool

/-- The flags under which all skills are listed with their locations. -/
def allWithLocations : NestedOptions :=
  ⟨true, true⟩

def nestedRoot (dir : Path) : Path :=
  dir ++ ["skills".toList]

/-- Whether a skill directory is a checkout. -/
def hasGit (paths : PathRegistry Content) (dir : Path) : Bool :=
  paths.tree.isFolder (dir ++ [".git".toList])

def isValidSegment (name : Text) : Bool :=
  decide ((validatedPathSegments name).length = 1)

section Discovery

variable (paths : PathRegistry Content) (options : NestedOptions)

/-- The node that the walk starts with for an installed root. -/
def rootNode (root : Path) : NestedNode :=
  let name := root.getLast?.getD []
  { segments := [name]
    dir := root
    configChainValid :=
      !options.includeConfigWriteLocation || isValidSegment name
    configParent := none
    disabled := options.includeDisabled && paths.isDisabled root }

def rootNodes : List NestedNode :=
  (paths.installedSkillRoots options.includeDisabled
    paths.directoryInventory).map (paths.rootNode options)

/-- What the children of a node take over as their writable parent. -/
def childParent (node : NestedNode) : Option (Path × Nat) :=
  if options.includeConfigWriteLocation && node.configChainValid &&
      !paths.hasGit node.dir then
    some (node.dir, node.segments.length - 1)
  else node.configParent

def childNode (node : NestedNode) (child : Text) : NestedNode :=
  let childDir := nestedRoot node.dir ++ [child]
  { segments := node.segments ++ [child]
    dir := childDir
    configChainValid :=
      !options.includeConfigWriteLocation ||
        (node.configChainValid && isValidSegment child)
    configParent := paths.childParent options node
    disabled := node.disabled || paths.isDisabled childDir }

def childNodes (node : NestedNode) : List NestedNode :=
  if !paths.tree.isFolder (nestedRoot node.dir) then []
  else
    ((paths.folderNames (nestedRoot node.dir)).map
      (paths.childNode options node)).filter fun child =>
        options.includeDisabled || !child.disabled

def nodeLocation (node : NestedNode) : Option WriteLocation :=
  if node.configChainValid then
    match node.configParent with
    | none => some (.global node.segments)
    | some (dir, depth) =>
      if node.segments.length = 1 then some (.global node.segments)
      else some (.skill dir (node.segments.drop (depth + 1)))
  else none

def nestedEntry (node : NestedNode) : NestedEntry where
  segments := node.segments
  dir := node.dir
  disabled := if options.includeDisabled then some node.disabled else none
  configWriteLocation :=
    if options.includeConfigWriteLocation then nodeLocation node else none

def nodeWeight (node : NestedNode) : Nat :=
  1 + paths.tree.weight (nestedRoot node.dir)

def nestedNodes : List NestedNode :=
  BreadthFirst.walk (paths.childNodes options)
    ((paths.rootNodes options).map paths.nodeWeight).sum
    (paths.rootNodes options)

/-- `nested_skill_entries`. -/
def nestedSkillEntries : List NestedEntry :=
  (paths.nestedNodes options).map (nestedEntry options)

end Discovery

section Resolution

variable (paths : PathRegistry Content)

/-- The loop of `nested_skill_dir_chain`. -/
def chainFrom : Path → List Text → Option (List Path)
  | _, [] => some []
  | dir, segment :: rest =>
    if (validatedPathSegments segment).length ≠ 1 then none
    else
      let candidate := nestedRoot dir ++ [segment]
      if !paths.tree.isFolder candidate then none
      else (chainFrom candidate rest).map (candidate :: ·)

/-- `nested_skill_dir_chain`. -/
def nestedSkillDirChain : List Text → List Path
  | [] => []
  | first :: rest =>
    match (paths.skillLayers true first).getLast? with
    | none => []
    | some dir => ((paths.chainFrom dir rest).map (dir :: ·)).getD []

/-- The checks of a chain, after the directory `previous`. -/
def isChain : Option Path → List Text → List Path → Bool
  | _, [], [] => true
  | previous, segment :: segments, dir :: chain =>
    decide ((validatedPathSegments segment).length = 1) &&
      paths.tree.isFolder dir &&
      (match previous with
      | none => decide (dir.getLast? = some segment)
      | some parent => decide (dir = nestedRoot parent ++ [segment])) &&
      isChain (some dir) segments chain
  | _, _, _ => false

/-- The nearest of some ancestors that is no checkout, with its depth. -/
def nearestWritable (ancestors : List Path) : Option (Path × Nat) :=
  ancestors.zipIdx.reverse.find? fun ancestor =>
    !paths.hasGit ancestor.1

/-- `_skill_config_write_location_from_chain`. -/
def locationFromChain (segments : List Text) (chain : List Path) :
    Option WriteLocation :=
  if segments = [] then none
  else if chain.length ≠ segments.length then none
  else if !paths.isChain none segments chain then none
  else
    match paths.nearestWritable chain.dropLast with
    | some (dir, depth) => some (.skill dir (segments.drop (depth + 1)))
    | none => some (.global segments)

/-- `skill_config_write_location`. -/
def skillConfigWriteLocation (segments : List Text) :
    Option WriteLocation :=
  if segments = [] then none
  else paths.locationFromChain segments (paths.nestedSkillDirChain segments)

end Resolution

end PathRegistry

/-!
# Navigation pages of skills

Every installed skill, and every skill nested in it, gives the files below
`dashboards/nav` of its layers as pages.  A page is made of the text of its
file, so the pages are a function of the folders and files that are read.
-/

/-- How a page is made, and the bytes of a page that is a literal fragment. -/
structure NavReader (Content Page : Type) where
  /-- The name of the skill, the route, the layer and all layers. -/
  read : Text → Text → Path → List Path → Content → Option Page
  literalBytes : Page → Option Nat

variable {Content Page : Type}

namespace PathRegistry

def navRoot (layer : Path) : Path :=
  layer ++ ["dashboards".toList, "nav".toList]

section

variable (paths : PathRegistry Content)

/-- `sorted_dir_entries`. -/
def sortedNames (folder : Path) : List Text :=
  (paths.tree.names folder).insertionSort (· ≤ ·)

/-- `_descendant_skill_names`; the fuel counts the folders. -/
def descendantSkillNames : Nat → Text → Path → List Text
  | 0, _, _ => []
  | fuel + 1, skillName, skillRoot =>
    if !isTrue skillName || !paths.tree.isFolder skillRoot then []
    else if !paths.tree.isFolder (nestedRoot skillRoot) then [skillName]
    else
      skillName ::
        (paths.folderNames (nestedRoot skillRoot)).flatMap fun entry =>
          if paths.isDisabled (nestedRoot skillRoot ++ [entry]) then []
          else
            descendantSkillNames fuel (skillName ++ '/' :: entry)
              (nestedRoot skillRoot ++ [entry])

/-- The nested layers of one more segment in `_skill_layers`. -/
def nestedLayers (layers : List Path) (segment : Text) : List Path :=
  (layers.map fun layer => nestedRoot layer ++ [segment]).filter fun layer =>
    paths.tree.isFolder layer && !paths.isDisabled layer

/-- `_skill_layers`. -/
def dispatcherSkillLayers (skillName : Text) : List Path :=
  if !isTrue skillName then []
  else
    match validatedPathSegments skillName with
    | [] => []
    | rootSkill :: nested =>
      nested.foldl paths.nestedLayers (paths.skillLayers false rootSkill)

/-- `_relative_files`; the fuel counts the folders. -/
def relativeFiles : Nat → Path → List Text
  | 0, _ => []
  | fuel + 1, root =>
    if !paths.tree.isFolder root then []
    else
      (paths.sortedNames root).flatMap fun entry =>
        if paths.tree.isFolder (root ++ [entry]) then
          (relativeFiles fuel (root ++ [entry])).map fun file =>
            entry ++ '/' :: file
        else if paths.tree.isFile (root ++ [entry]) then [entry]
        else []

/-- The sorted keys of `_skill_nav_route_ids`. -/
def navRoutes (layers : List Path) : List Text :=
  ((layers.reverse.flatMap fun layer =>
    paths.relativeFiles (paths.tree.weight (navRoot layer))
      (navRoot layer)).dedup).insertionSort (· ≤ ·)

variable (reader : NavReader Content Page)

/-- `_load_skill_page` of a navigation file; it dies over an unsafe name. -/
def loadNavPage (skillName : Text) (layers : List Path) (file : Text) :
    Option Page :=
  let segments := validatedPathSegments file
  if segments = [] then none
  else
    (layers.reverse.find? fun layer =>
        paths.tree.isFile (navRoot layer ++ segments)).bind fun layer =>
      (paths.tree.content? (navRoot layer ++ segments)).bind
        (reader.read skillName ("nav/".toList ++ file) layer layers)

/-- `_skill_nav_pages_for_layers`. -/
def navPagesForLayers (skillName : Text) (layers : List Path) :
    Option (List Page) :=
  if !isTrue skillName || layers.isEmpty then some []
  else (paths.navRoutes layers).mapM (paths.loadNavPage reader skillName layers)

def navSkills (entry : SkillEntry) : List (Text × List Path) :=
  (paths.descendantSkillNames (paths.tree.weight entry.skillRoot)
      entry.skillName entry.skillRoot).map fun skillName =>
    (skillName, if skillName = entry.skillName then entry.layers
      else paths.dispatcherSkillLayers skillName)

/-- The variables of `all_skill_nav_pages` after its loop. -/
structure LoadedNav (Page : Type) where
  pages : List Page
  skillRoots : List Path
  skillLayers : List Path
deriving DecidableEq

/-- The loop of `all_skill_nav_pages`, which reads all pages. -/
def loadNav : Option (LoadedNav Page) :=
  let entries :=
    paths.installedSkillEntries false paths.directoryInventory
  if entries.any fun entry => !isTrue entry.skillName then none
  else
    ((entries.flatMap paths.navSkills).mapM fun skill =>
        paths.navPagesForLayers reader skill.1 skill.2).map fun pages =>
      { pages := pages.flatten
        skillRoots := entries.map SkillEntry.skillRoot
        skillLayers :=
          entries.flatMap fun entry =>
            entry.layers ++ (paths.navSkills entry).flatMap Prod.snd }

end

section

variable (paths : PathRegistry Content)

/-- The closure `$add_existing_ancestor`. -/
def existingAncestor (target : Path) : Option Path :=
  target.inits.reverse.find? paths.tree.isFolder

/-- The targets of a runtime root, a skills root or the root of a skill. -/
def rootTargets (root : Path) : List Path :=
  [root, root.dropLast]

def layerTargets (layer : Path) : List Path :=
  [nestedRoot layer, layer ++ ["dashboards".toList], navRoot layer]

/--
The sorted `@watch_paths` of `_cache_all_skill_nav_pages`, with the directories
of the cached inventories.
-/
def watchPaths (runtimeRoots skillRoots skillLayers inventory : List Path) :
    List Path :=
  let targets :=
    (runtimeRoots ++ paths.skillsRoots).flatMap rootTargets ++
      skillRoots.flatMap rootTargets ++ skillLayers.flatMap layerTargets ++
      inventory
  ((targets.filterMap paths.existingAncestor).dedup).insertionSort (· ≤ ·)

/-- The bounds under which `_cache_all_skill_nav_pages` goes on. -/
def cacheable (reader : NavReader Content Page) (pages : List Page) :
    Bool :=
  decide (pages.length ≤ 8192) &&
    match pages.mapM reader.literalBytes with
    | none => false
    | some bytes => decide (bytes.sum ≤ 8 * 1024 * 1024)

end

end PathRegistry

end DeveloperDashboard.Skills
