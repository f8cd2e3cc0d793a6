import DeveloperDashboard.Config.JsonValue
import DeveloperDashboard.Perl.Number
import DeveloperDashboard.Skills.InstalledSkills

namespace DeveloperDashboard.Skills

open Library Perl Config

/-!
# Routes and configuration of skills

A file `config/routes.json` is loaded as a whole: it dies over the first thing
that is not as it should be.  The search for a path loads the routes of every
installed skill in turn, up to the one that has the path.
-/

inductive RouteKind where
  | app
  | ajax
  | js
  | css
  | others
deriving DecidableEq

namespace RouteKind

/-- `qw(app ajax js css others)`. -/
def all : List RouteKind :=
  [.app, .ajax, .js, .css, .others]

def text : RouteKind → Text
  | .app => "app".toList
  | .ajax => "ajax".toList
  | .js => "js".toList
  | .css => "css".toList
  | .others => "others".toList

end RouteKind

abbrev RouteSections :=
  RouteKind → ConfigHash

/-- A normalised route; the target is its file, its route id or its asset. -/
structure RouteSpec where
  kind : RouteKind
  target : Text
  path : Text
  aliases : List Text
  type : Option Text
  sourceFile : Path
  skillName : Option Text
deriving DecidableEq

def RouteSpec.claims (spec : RouteSpec) (path : Text) : Bool :=
  decide (spec.path = path) ||
    spec.aliases.any fun other => decide (other = path)

def fileText (path : Path) : Text :=
  '/' :: ['/'].intercalate path

def definedText : JsonValue → Option Text
  | .null => none
  | .boolean value => some (if value then ['1'] else ['0'])
  | .number text => if text = "" then none else some text.toList
  | .string text => if text = "" then none else some text.toList
  | .array _ => some "ARRAY".toList
  | .hash _ => some "HASH".toList

/-- A value for which `ref` is not empty. -/
def isReference : JsonValue → Bool
  | .boolean _ => true
  | .array _ => true
  | .hash _ => true
  | _ => false

def isVersionOne : JsonValue → Bool
  | .boolean value => value
  | .number text => decide (textNumber text.toList = 1)
  | .string text => decide (textNumber text.toList = 1)
  | _ => false

/-- The pattern `\A/`. -/
def isAbsolute (path : Text) : Bool :=
  decide (path.head? = some '/')

def sortedTexts (entries : ConfigHash) : List Text :=
  (entries.map fun entry => entry.1.toList).insertionSort (· ≤ ·)

def valueOf (entries : ConfigHash) (key : Text) : Option JsonValue :=
  Entries.lookup entries (String.ofList key)

def flatTarget? (goal : Text) : Option (RouteKind × Text) :=
  if goal.any fun char => decide (char = '\n') then none
  else
    RouteKind.all.findSome? fun kind =>
      let opening := '/' :: kind.text ++ ['/']
      if opening.isPrefixOf goal then some (kind, goal.drop opening.length)
      else none

/-- What a flat route maps its path to, and the type beside it. -/
def flatRoute (opening : Text) : Option JsonValue →
    Except Text (Option JsonValue × Option JsonValue)
  | some (.hash entries) =>
    let unknown := entries.filter fun entry =>
      decide (entry.1 ≠ "to" ∧ entry.1 ≠ "type")
    if unknown.isEmpty then
      .ok (entries.lookup "to", entries.lookup "type")
    else
      .error (opening ++ " contains unsupported keys: ".toList ++
        [' '].intercalate (unknown.map fun entry => entry.1.toList))
  | some (.array _) | some (.boolean _) =>
    .error (opening ++ " must map to a string or JSON object".toList)
  | route => .ok (route, none)

def flatTypeError (opening : Text) (kind : RouteKind) :
    Option JsonValue → Option Text
  | none | some .null => none
  | some type =>
    if isReference type then
      some (opening ++ " type must be a scalar".toList)
    else if definedText type = none then
      some (opening ++ " type must not be empty".toList)
    else
      match kind with
      | .app | .js | .css =>
        some (opening ++ " does not allow type for /".toList ++
          kind.text ++ " targets".toList)
      | _ => none

def flatSpec (kind : RouteKind) (path : Text) (type : Option JsonValue) :
    ConfigHash :=
  let given := (type.bind definedText).map fun type =>
    JsonValue.string (String.ofList type)
  let kept :=
    if kind = .ajax then some (given.getD (.string "json")) else given
  ("path", .string (String.ofList path)) ::
    (kept.map fun type => ("type", type)).toList

/-- The kind, the target and the typed entry of a flat route. -/
def expandFlatRoute (file : Path) (payload : ConfigHash) (path : Text) :
    Except Text (RouteKind × Text × ConfigHash) :=
  let opening := fileText file ++ " route path '".toList ++ path ++ ['\'']
  (flatRoute opening (valueOf payload path)).bind fun route =>
    match (route.1.filter fun goal => !isReference goal).bind definedText with
    | none =>
      .error (opening ++ " must map to a non-empty route target".toList)
    | some goal =>
      match flatTarget? goal with
      | none =>
        .error (opening ++ (" must map to /ajax/, /app/, /js/, " ++
          "/css/, or /others/").toList)
      | some (kind, target) =>
        if target = [] then
          .error (opening ++ " target must not be empty".toList)
        else
          match flatTypeError opening kind route.2 with
          | some reason => .error reason
          | none => .ok (kind, target, flatSpec kind path route.2)

/-- One round of `_expand_flat_skill_routes_payload`. -/
def addFlatRoute (file : Path) (payload : ConfigHash)
    (expanded : List (RouteKind × String × JsonValue)) (path : Text) :
    Except Text (List (RouteKind × String × JsonValue)) :=
  (expandFlatRoute file payload path).bind fun route =>
    let target := String.ofList route.2.1
    if expanded.any fun other =>
        decide (other.1 = route.1 ∧ other.2.1 = target) then
      .error ("Duplicate ".toList ++ route.1.text ++
        " route target '/".toList ++ route.1.text ++ '/' :: route.2.1 ++
        "' in ".toList ++ fileText file)
    else .ok (expanded ++ [(route.1, target, .hash route.2.2)])

def ofKind (expanded : List (RouteKind × String × JsonValue)) :
    RouteSections :=
  fun kind =>
    expanded.filterMap fun route =>
      if route.1 = kind then some route.2 else none

/-- A key that names a section; `$` also matches before a newline. -/
def isTypedKey (key : Text) : Bool :=
  RouteKind.all.any fun kind => decide (kind.text = chomp key)

def sectionEntries? (payload : ConfigHash) (kind : RouteKind) :
    Option ConfigHash :=
  match valueOf payload kind.text with
  | none => some []
  | some (.hash entries) => some entries
  | some _ => none

def typedSections (file : Path) (payload : ConfigHash) :
    Except Text RouteSections :=
  match RouteKind.all.find? fun kind =>
      (sectionEntries? payload kind).isNone with
  | some kind =>
    .error (fileText file ++ ' ' :: kind.text ++
      " must be a JSON object".toList)
  | none => .ok fun kind => (sectionEntries? payload kind).getD []

def routeSections (file : Path) (payload : ConfigHash) :
    Except Text RouteSections :=
  let keys := (sortedTexts payload).filter fun key =>
    decide (key ≠ "version".toList)
  let unknown := keys.filter fun key => !isTypedKey key
  if keys.any isAbsolute && keys.any isTypedKey then
    .error (fileText file ++ (" must not mix flat custom-path routes " ++
      "with typed route sections").toList)
  else if keys.any isAbsolute then
    if keys.any fun key => !isAbsolute key then
      .error (fileText file ++
        " flat routes must use absolute custom-path keys".toList)
    else
      (keys.foldlM (addFlatRoute file payload) []).map ofKind
  else if !unknown.isEmpty then
    .error (fileText file ++ " contains unsupported top-level keys: ".toList
      ++ [' '].intercalate unknown)
  else if (valueOf payload "version".toList).any fun version =>
      !isVersionOne version then
    .error (fileText file ++ " version must be 1".toList)
  else typedSections file payload

/-- `_load_skill_routes_file`, of what the decoder makes of the file. -/
def loadSkillRoutesFile (file : Path) :
    Except Text JsonValue → Except Text RouteSections
  | .error reason =>
    .error ("Invalid JSON in ".toList ++ fileText file ++ ": ".toList ++
      reason)
  | .ok (.hash payload) => routeSections file payload
  | .ok _ => .error (fileText file ++ " must contain a JSON object".toList)

/-- The aliases of an entry, without the empty ones. -/
def routeAliases (opening : Text) :
    Option JsonValue → Except Text (List Text)
  | none | some .null => .ok []
  | some (.array items) =>
    let aliases := items.filterMap definedText
    if aliases.all isAbsolute then .ok aliases
    else .error (opening ++ " aliases must start with /".toList)
  | some _ => .error (opening ++ " aliases must be an array".toList)

def routeType (file : Path) (kind : RouteKind) (target opening : Text) :
    Option JsonValue → Except Text (Option Text)
  | none => .ok none
  | some type =>
    if isReference type then
      .error (opening ++ " type must be a scalar".toList)
    else
      match definedText type with
      | none => .error (opening ++ " type must not be empty".toList)
      | some text =>
        if kind = .app then
          .error (fileText file ++ " app entry '".toList ++ target ++
            "' must not declare type".toList)
        else .ok (some text)

/-- `_normalize_skill_route_spec`. -/
def normalizeSkillRouteSpec (kind : RouteKind) (skillName : Option Text)
    (file : Path) (target : Text) (spec : Option JsonValue) :
    Except Text RouteSpec :=
  let opening :=
    fileText file ++ ' ' :: kind.text ++ " entry '".toList ++ target ++ ['\'']
  if Perl.isTrue target = false then .error "Missing target".toList
  else
    match spec with
    | some (.hash entries) =>
      match (valueOf entries "path".toList).bind definedText with
      | none => .error (opening ++ " path is required".toList)
      | some path =>
        if isAbsolute path = false then
          .error (opening ++ " path must start with /".toList)
        else do
          let aliases ←
            routeAliases opening (valueOf entries "aliases".toList)
          let type ←
            routeType file kind target opening
              (valueOf entries "type".toList)
          return { kind, target, path, aliases, type
                   sourceFile := file
                   skillName := skillName.filter fun name =>
                     decide (name ≠ []) }
    | _ => .error (opening ++ " must be a JSON object".toList)

/-- The files, where the configurations are and how they are decoded. -/
structure Dispatcher (Content : Type) where
  paths : PathRegistry Content
  configLayers : List Path
  decode : Content → Except Text JsonValue

namespace Dispatcher

variable {Content : Type} (dispatcher : Dispatcher Content)

def routesFile (configRoot : Path) : Path :=
  configRoot ++ ["routes.json".toList]

def configRoot (layer : Path) : Path :=
  layer ++ ["config".toList]

def sections? (configRoot : Path) : Option (Except Text RouteSections) :=
  (dispatcher.paths.tree.content? (routesFile configRoot)).map fun content =>
    loadSkillRoutesFile (routesFile configRoot) (dispatcher.decode content)

/-- The variables of `_skill_routes_for`. -/
structure CollectedRoutes where
  routes : Entries Text RouteSpec
  claimedPaths : List Text

def claimPath (kind : RouteKind) (skillName : Text) (claimed : List Text)
    (path : Text) : Except Text (List Text) :=
  if claimed.any fun other => decide (other = path) then
    .error ("Duplicate ".toList ++ kind.text ++ " route path '".toList ++
      path ++ "' in skill '".toList ++ skillName ++ ['\''])
  else .ok (claimed ++ [path])

/-- The inner loop of `_skill_routes_for`, for one target. -/
def addTarget (kind : RouteKind) (skillName : Text) (file : Path)
    (entries : ConfigHash) (collected : CollectedRoutes) (target : Text) :
    Except Text CollectedRoutes :=
  if (collected.routes.lookup target).isSome then .ok collected
  else do
    let spec ←
      normalizeSkillRouteSpec kind (some skillName) file target
        (valueOf entries target)
    let claimed ←
      (spec.path :: spec.aliases).foldlM (claimPath kind skillName)
        collected.claimedPaths
    return ⟨collected.routes.store target spec, claimed⟩

/-- The outer loop of `_skill_routes_for`, for one layer. -/
def addLayerRoutes (kind : RouteKind) (skillName : Text)
    (collected : CollectedRoutes) (layer : Path) :
    Except Text CollectedRoutes :=
  match dispatcher.sections? (configRoot layer) with
  | none => .ok collected
  | some loaded =>
    loaded.bind fun sections =>
      (sortedTexts (sections kind)).foldlM
        (addTarget kind skillName (routesFile (configRoot layer))
          (sections kind)) collected

/-- `_skill_routes_for`. -/
def skillRoutesFor (skillName : Text) (kind : RouteKind) :
    Except Text (Entries Text RouteSpec) :=
  ((dispatcher.paths.dispatcherSkillLayers skillName).reverse.foldlM
    (dispatcher.addLayerRoutes kind skillName) ⟨[], []⟩).map
      CollectedRoutes.routes

/-- The routes of a runtime configuration, in the order of its kinds. -/
def layerSpecs (configRoot : Path) : Except Text (List RouteSpec) :=
  match dispatcher.sections? configRoot with
  | none => .ok []
  | some loaded =>
    loaded.bind fun sections =>
      (RouteKind.all.mapM fun kind =>
        (sortedTexts (sections kind)).mapM fun target =>
          normalizeSkillRouteSpec kind none (routesFile configRoot) target
            (valueOf (sections kind) target)).map List.flatten

/-- `_runtime_custom_route_specs`. -/
def runtimeCustomRouteSpecs : Except Text (List RouteSpec) :=
  (dispatcher.configLayers.mapM dispatcher.layerSpecs).map List.flatten

/-- `_all_installed_skill_names`. -/
def allInstalledSkillNames : List Text :=
  (dispatcher.paths.installedSkillRoots false
    dispatcher.paths.directoryInventory).flatMap fun root =>
      dispatcher.paths.descendantSkillNames
        (dispatcher.paths.tree.weight root) (root.getLast?.getD []) root

def findOfKind (path skillName : Text) (kind : RouteKind) :
    Except Text (Option RouteSpec) :=
  (dispatcher.skillRoutesFor skillName kind).map fun routes =>
    ((routes.map Prod.fst).insertionSort (· ≤ ·)).findSome? fun target =>
      (routes.lookup target).filter fun spec => spec.claims path

def findFirst {Item : Type} (search : Item → Except Text (Option RouteSpec)) :
    List Item → Except Text (Option RouteSpec)
  | [] => .ok none
  | item :: rest =>
    (search item).bind fun found =>
      match found with
      | some spec => .ok (some spec)
      | none => findFirst search rest

def findOfSkill (path skillName : Text) : Except Text (Option RouteSpec) :=
  findFirst (dispatcher.findOfKind path skillName) RouteKind.all

/-- `resolve_custom_route_path`. -/
def resolveCustomRoutePath (path : Text) :
    Except Text (Option RouteSpec) :=
  if path = [] then .ok none
  else
    dispatcher.runtimeCustomRouteSpecs.bind fun specs =>
      match specs.reverse.find? fun spec => spec.claims path with
      | some spec => .ok (some spec)
      | none =>
        findFirst (dispatcher.findOfSkill path)
          dispatcher.allInstalledSkillNames

/-- The variables of `_merge_array_items_by_identity`. -/
structure MergedItems where
  combined : List JsonValue
  positions : Entries String Nat

/-- An item of the left array, which always gets a place of its own. -/
def addLeftItem (field : String) (merged : MergedItems) (item : JsonValue) :
    MergedItems where
  combined := merged.combined ++ [item]
  positions :=
    match item.identity field with
    | none => merged.positions
    | some identity =>
      merged.positions.store identity merged.combined.length

/-- An item of the right array, which takes the place of its identity. -/
def addRightItem (field : String) (merged : MergedItems) (item : JsonValue) :
    MergedItems :=
  match (item.identity field).bind merged.positions.lookup with
  | some position =>
    { merged with combined := merged.combined.set position item }
  | none => addLeftItem field merged item

/-- `_merge_array_items_by_identity`. -/
def mergeArrayItemsByIdentity (left right : List JsonValue)
    (field : String) : List JsonValue :=
  (right.foldl (addRightItem field)
    (left.foldl (addLeftItem field) ⟨[], []⟩)).combined

/-- What `_merge_skill_hashes` stores for a key of the right hash. -/
def mergeSkillField (mergeInner : ConfigHash → ConfigHash → ConfigHash)
    (key : String) (previous : Option JsonValue) (value : JsonValue) :
    JsonValue :=
  match previous, value with
  | some (.hash left), .hash right => .hash (mergeInner left right)
  | some (.array left), .array right =>
    if key = "collectors" then
      .array (mergeArrayItemsByIdentity left right "name")
    else if key = "providers" then
      .array (mergeArrayItemsByIdentity left right "id")
    else value
  | _, _ => value

/-- `_merge_skill_hashes` on hashes of some depth at most. -/
def mergeSkillHashesTo : Nat → ConfigHash → ConfigHash → ConfigHash
  | 0 => Entries.overlay (mergeSkillField fun _ right => right)
  | depth + 1 => Entries.overlay (mergeSkillField (mergeSkillHashesTo depth))

/-- `_merge_skill_hashes`. -/
def mergeSkillHashes (left right : ConfigHash) : ConfigHash :=
  mergeSkillHashesTo (max (entriesDepth left) (entriesDepth right)) left right

/-- The configuration of a layer; `none` is a value that is no hash. -/
def layerConfig (content : Content) : Option ConfigHash :=
  match dispatcher.decode content with
  | .error _ => some []
  | .ok (.hash entries) => some entries
  | .ok value => if value.truthy then none else some []

/-- The loop of `get_skill_config`, which stops at such a value. -/
def mergeLayers : ConfigHash → List Path → ConfigHash
  | merged, [] => merged
  | merged, layer :: rest =>
    match dispatcher.paths.tree.content?
        (configRoot layer ++ ["config.json".toList]) with
    | none => mergeLayers merged rest
    | some content =>
      match dispatcher.layerConfig content with
      | none => []
      | some config => mergeLayers (mergeSkillHashes merged config) rest

/-- `get_skill_config`. -/
def getSkillConfig (skillName : Text) : ConfigHash :=
  dispatcher.mergeLayers [] (dispatcher.paths.dispatcherSkillLayers skillName)

end Dispatcher

end DeveloperDashboard.Skills
