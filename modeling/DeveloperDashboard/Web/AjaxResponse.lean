import DeveloperDashboard.Library.FileTreeEdits
import DeveloperDashboard.Skills.RouteSegments
import DeveloperDashboard.Web.PageLinks

namespace DeveloperDashboard.Web

open Library Perl Skills

/-!
# Saved Ajax files

A page stores the code of an Ajax handler as a file, below the runtime root or
in the layer of the skill that the page comes from, and is given a URL for it.
-/

/-- A parent stands among the names of a path. -/
def hasParentTraversal (file : Text) : Bool :=
  (file.splitOn '/').any fun name => decide (name = ['.', '.'])

/-- A letter or a digit, and then names of files and slashes between them. -/
def isPlainFileName (file : Text) : Bool :=
  (file.head?.any Char.isAlphanum) &&
    file.all fun char => isFileChar char || char = '/'

/-- `_validate_saved_ajax_file`. -/
def validateSavedAjaxFile (file : Text) : Except String Text :=
  if file = [] then .error "file is required"
  else if file.head? = some '/' then .error "file must be relative"
  else if hasParentTraversal file then
    .error "file contains invalid parent traversal"
  else if !isPlainFileName file then
    .error "file contains invalid characters"
  else .ok file

/-- The names that `catfile` makes of a relative path. -/
def catNames (path : Text) : List Text :=
  (path.splitOn '/').filter fun name => decide (name ≠ [] ∧ name ≠ ['.'])

/-- `saved_ajax_file_path`. -/
def savedAjaxFilePath (runtimeRoot : Path) (file : Text) :
    Except String Path :=
  (validateSavedAjaxFile file).map fun file =>
    runtimeRoot ++ ajaxFolder ++ catNames file

/-- What a page hands to `Ajax` about itself. -/
structure AjaxContext where
  runtimeRoot : Path
  /-- The segments of the name of its skill, if it comes from one. -/
  skill : List Text

def AjaxContext.skillName (context : AjaxContext) : Text :=
  joinSegments context.skill

/-- What else `Ajax` is asked for. -/
structure AjaxArgs where
  file : Text
  type : Text
  singleton : Text

section

variable (safe : UriSafeSet) (ajaxRoutePath : Text → Text → Option Text)

/-- `_url_path_escape`. -/
def urlPathEscape (path : Text) : Option Text :=
  ((pathSegments path).mapM (uriEscape safe)).map joinSegments

def plainAjaxPath (context : AjaxContext) (file : Text) : Option Text :=
  if context.skillName ≠ [] then
    (urlPathEscape safe context.skillName).bind fun skillName =>
      (urlPathEscape safe file).map fun file =>
        "/ajax/".toList ++ skillName ++ '/' :: file
  else
    (urlPathEscape safe file).map fun file => "/ajax/".toList ++ file

def AjaxArgs.typeOr (args : AjaxArgs) : Text :=
  if isTrue args.type then args.type else "text".toList

def withSingleton (args : AjaxArgs) (query : Text) : Option Text :=
  if args.singleton = [] then some query
  else
    (uriEscape safe args.singleton).map fun singleton =>
      query ++ (if '?' ∈ query then '&' else '?') ::
        "singleton=".toList ++ singleton

/--
`_saved_ajax_url`; the custom route of a file of a skill is a parameter, and a
wide character is death.
-/
def savedAjaxUrl (context : AjaxContext) (args : AjaxArgs) : Option Text :=
  match if context.skillName = [] then none
    else ajaxRoutePath context.skillName args.file with
  | some path => withSingleton safe args path
  | none =>
    (plainAjaxPath safe context args.file).bind fun path =>
      (uriEscape safe args.typeOr).bind fun type =>
        withSingleton safe args (path ++ "?type=".toList ++ type)

/-- What `_saved_ajax_url_and_store` leaves and gives. -/
structure SavedAjax (Content : Type) where
  tree : FileTree Text Content
  path : Path
  url : Text

variable {Content : Type}

/-- `_saved_ajax_url_and_store`, when it does not die. -/
def savedAjaxUrlAndStore (tree : FileTree Text Content)
    (context : AjaxContext) (args : AjaxArgs) (code : Content) :
    Option (SavedAjax Content) :=
  match savedAjaxFilePath context.runtimeRoot args.file with
  | .error _ => none
  | .ok path =>
    match tree.makePath path.dropLast.inits with
    | .error _ => none
    | .ok made =>
      (made.writeFile path code).bind fun written =>
        (savedAjaxUrl safe ajaxRoutePath context args).map fun url =>
          ⟨written, path, url⟩

end

/-!
# Ajax responses

The handlers of `/ajax` run a saved file or the code of a token.  A path below
`/ajax/` belongs to the skill of its longest prefix, if that has such a file,
and otherwise it names a file below the runtime root.
-/

abbrev Params :=
  Entries Text Text

/-- `tr/+/ /`. -/
def plusToSpace (text : Text) : Text :=
  text.map fun char => if char = '+' then ' ' else char

def queryPair (pair : Text) : Option (Text × Text) :=
  let key := pair.takeWhile (· ≠ '=')
  let value := (pair.dropWhile (· ≠ '=')).drop 1
  if key = [] then none
  else
    let name := uriUnescape (plusToSpace key)
    if name = "token".toList ∨ name = "atoken".toList then
      some (name, uriUnescape value)
    else some (name, uriUnescape (plusToSpace value))

/-- `_parse_query`. -/
def parseQuery (query : Text) : Params :=
  (query.splitOn '&').foldl (fun params pair =>
    match queryPair pair with
    | some (name, value) => params.store name value
    | none => params) []

def overParams (params others : Params) : Params :=
  others.foldl (fun merged entry => merged.store entry.1 entry.2) params

def Params.value (params : Params) (name : String) : Text :=
  (params.lookup name.toList).getD []

structure Request where
  path : Text
  query : Text
  body : Text
  isPost : Bool

inductive AjaxAnswer where
  | invalidSkillName
  /-- `_transient_url_forbidden_response` -/
  | transientUrlForbidden
  /-- `decode_payload` died. -/
  | badPayload
  | badFile (error : String)
  | missingToken
  | handlerNotFound
  /-- `stream_code_block` -/
  | codeBlock (code : Text)
  /-- `stream_saved_ajax_file` -/
  | savedFile (path : Path) (skillLayers : List Path)
  | singletonStopped (singleton : Text)
  /-- A page or an asset, which the custom route alone chooses. -/
  | customRoute
deriving DecidableEq

/-- What `resolve_custom_route_path` gives. -/
inductive CustomRoute where
  | skillAjax (skillName ajaxFile : Text)
  /-- A route of the runtime, which is dispatched once more. -/
  | runtimeAjax (ajaxFile : Text)
  | other
deriving DecidableEq

/-- What the Ajax handlers read beside the request. -/
structure AjaxApp (Content : Type) where
  tree : FileTree Text Content
  runtimeRoot : Path
  upperRoots : List Path
  tokensAllowed : Bool
  decodePayload : Text → Option Text
  customRoute : Text → Option CustomRoute

variable {Content : Type}

namespace AjaxApp

variable (app : AjaxApp Content)

/-- The registry of the skills below the runtime roots. -/
def paths : PathRegistry Content where
  tree := app.tree
  skillsRoots := (app.runtimeRoot :: app.upperRoots).map PathRegistry.nestedRoot

/-- `_legacy_ajax_allowed`. -/
def legacyAjaxAllowed (params : Params) : Bool :=
  !isTrue (params.value "token") || app.tokensAllowed

/-- What `_legacy_ajax_response` does with a file of the runtime root. -/
def runtimeAnswer (file : Text) (skillLayers : List Path) : AjaxAnswer :=
  match savedAjaxFilePath app.runtimeRoot file with
  | .error error => .badFile error
  | .ok path =>
    if app.tree.isFile path then .savedFile path skillLayers
    else .handlerNotFound

/-- `_legacy_ajax_response`. -/
def runLegacyAjax (params : Params) (savedAjaxPath : Option Path)
    (skillLayers : List Path) : AjaxAnswer :=
  if isTrue (params.value "token") then
    match app.decodePayload (params.value "token") with
    | none => .badPayload
    | some code => .codeBlock code
  else
    match savedAjaxPath with
    | some path =>
      if app.tree.isFile path then .savedFile path skillLayers
      else .handlerNotFound
    | none =>
      if params.value "file" ≠ [] then
        app.runtimeAnswer (params.value "file") skillLayers
      else .missingToken

/-- The responses check the parameters and then run what they name. -/
def allowedAjax (params : Params) (savedAjaxPath : Option Path)
    (skillLayers : List Path) : AjaxAnswer :=
  if app.legacyAjaxAllowed params then
    app.runLegacyAjax params savedAjaxPath skillLayers
  else .transientUrlForbidden

/-- `_request_params`, the body over the query. -/
def requestParams (request : Request) : Params :=
  overParams (parseQuery request.query)
    (if request.isPost then parseQuery request.body else [])

/-- `legacy_ajax_response`. -/
def legacyAjaxResponse (request : Request) : AjaxAnswer :=
  app.allowedAjax (requestParams request) none []

/-- `legacy_ajax_file_response`. -/
def legacyAjaxFileResponse (ajaxFile : Text) (request : Request) :
    AjaxAnswer :=
  app.allowedAjax
    ((requestParams request).store "file".toList (orEmpty ajaxFile)) none []

/-- `skill_ajax_file_response`, which reads the body of any request. -/
def skillAjaxFileResponse
    (skillName ajaxFile : Text) (request : Request) : AjaxAnswer :=
  if !isTrue skillName then .invalidSkillName
  else
    let ajaxFile := orEmpty ajaxFile
    let savedAjaxPath := app.paths.skillAjaxFilePath skillName ajaxFile
    let skillLayers :=
      ((app.paths.resolveRouteSegments (pathSegments skillName)).map
        PathRegistry.RouteSpec.skillLayers).getD []
    app.allowedAjax
      ((overParams (parseQuery request.query)
        (parseQuery request.body)).store "file".toList
          (if savedAjaxPath.isSome then ajaxFile
            else skillName ++ '/' :: ajaxFile))
      savedAjaxPath skillLayers

/-- The file of the skill that a path belongs to, with the names of both. -/
def skillHandler? (segments : List Text) : Option (Text × Text × Path) :=
  (app.paths.resolveRouteSegments segments).bind fun spec =>
    if spec.routeSegments = [] then none
    else
      (app.paths.skillAjaxFilePath spec.skillName
        (joinSegments spec.routeSegments)).map fun path =>
          (spec.skillName, joinSegments spec.routeSegments, path)

/-- `prefixed_ajax_file_response`. -/
def prefixedAjaxFileResponse (ajaxPath : Text) (request : Request) :
    AjaxAnswer :=
  let ajaxPath := orEmpty ajaxPath
  match app.skillHandler? (pathSegments ajaxPath) with
  | some (skillName, ajaxFile, _) =>
    app.skillAjaxFileResponse skillName ajaxFile request
  | none => app.legacyAjaxFileResponse ajaxPath request

/-- The handlers below `/ajax`. -/
def routeAnswer (request : Request) : Route → Option AjaxAnswer
  | .legacyAjax => some (app.legacyAjaxResponse request)
  | .ajaxSingletonStop =>
    some (.singletonStopped ((parseQuery request.query).value "singleton"))
  | .prefixedAjaxFile ajaxPath =>
    some (app.prefixedAjaxFileResponse ajaxPath request)
  | _ => none

/-- `_custom_skill_route_response`. -/
def customAnswer (path : Text) (request : Request) : Option AjaxAnswer :=
  (app.customRoute path).bind fun route =>
    match route with
    | .skillAjax skillName ajaxFile =>
      some (app.skillAjaxFileResponse skillName ajaxFile request)
    | .runtimeAjax ajaxFile =>
      app.routeAnswer request
        (dispatchRequest ("/ajax/".toList ++ ajaxFile) request.isPost)
    | .other => some .customRoute

/-- The Ajax handlers that `dispatch_request` chooses. -/
def answer (request : Request) : Option AjaxAnswer :=
  match dispatchRequest request.path request.isPost with
  | .customSkillRoute path => app.customAnswer path request
  | route => app.routeAnswer request route

end AjaxApp

/-!
# What Ajax requests run

A token that is true is all that a request runs, and without one the path
settles the file.  Only the path `/ajax` leaves the file to the parameters.
-/

variable {Content : Type}

def AjaxAnswer.file? : AjaxAnswer → Option Path
  | savedFile path _ => some path
  | _ => none

def AjaxAnswer.code? : AjaxAnswer → Option Text
  | codeBlock code => some code
  | _ => none

variable {file : Text} {path : Path}

namespace AjaxApp

variable (app : AjaxApp Content)

def runtimeFile? (file : Text) : Option Path :=
  match savedAjaxFilePath app.runtimeRoot file with
  | .ok path => if app.tree.isFile path then some path else none
  | .error _ => none

/-- The file that a path below `/ajax/` stands for. -/
def handlerFile? (ajaxPath : Text) : Option Path :=
  match app.skillHandler? (pathSegments ajaxPath) with
  | some handler => some handler.2.2
  | none => app.runtimeFile? ajaxPath

def skillFile? (skillName ajaxFile : Text) : Option Path :=
  if isTrue skillName then
    (app.paths.skillAjaxFilePath skillName (orEmpty ajaxFile)).or
      (app.runtimeFile? (skillName ++ '/' :: orEmpty ajaxFile))
  else none

def routeFile? : Route → Option Path
  | .prefixedAjaxFile ajaxPath => app.handlerFile? (orEmpty ajaxPath)
  | _ => none

def customFile? (path : Text) : Option Path :=
  (app.customRoute path).bind fun route =>
    match route with
    | .skillAjax skillName ajaxFile => app.skillFile? skillName ajaxFile
    | .runtimeAjax ajaxFile =>
      app.routeFile? (dispatchRequest ("/ajax/".toList ++ ajaxFile) false)
    | .other => none

def designated? (path : Text) : Option Path :=
  match dispatchRequest path false with
  | .customSkillRoute path => app.customFile? path
  | route => app.routeFile? route

variable {app}

/--
The answer runs the code of a token that is true, when tokens are allowed, and
otherwise the given file.
-/
structure IsAnswer
    (app : AjaxApp Content) (answer : AjaxAnswer) (token : Text)
    (file : Option Path) : Prop where
  file? : answer.file? = if isTrue token then none else file
  code? :
    answer.code? =
      if isTrue token && app.tokensAllowed then app.decodePayload token
      else none

theorem runtimeAnswer_file? {layers : List Path} :
    (app.runtimeAnswer file layers).file? = app.runtimeFile? file ∧
      (app.runtimeAnswer file layers).code? = none := by
  unfold runtimeAnswer runtimeFile?
  cases savedAjaxFilePath app.runtimeRoot file with
  | error error => exact ⟨rfl, rfl⟩
  | ok path =>
    dsimp only
    split
    · exact ⟨rfl, rfl⟩
    · exact ⟨rfl, rfl⟩

theorem runtimeFile?_nil : app.runtimeFile? [] = none :=
  rfl

/-- What parameters run that are checked first. -/
theorem isAnswer_allowedAjax
    {params : Params} {savedAjaxPath : Option Path} {layers : List Path}
    (isFile :
      ∀ path, savedAjaxPath = some path → app.tree.isFile path = true) :
    app.IsAnswer (app.allowedAjax params savedAjaxPath layers)
      (params.value "token")
      (savedAjaxPath.or (app.runtimeFile? (params.value "file"))) := by
  unfold allowedAjax legacyAjaxAllowed runLegacyAjax
  by_cases token : isTrue (params.value "token") = true
  · by_cases allowed : app.tokensAllowed = true
    · cases decoded : app.decodePayload (params.value "token") with
      | none =>
        constructor
        · simp [token, allowed, decoded, AjaxAnswer.file?]
        · simp [token, allowed, decoded, AjaxAnswer.code?]
      | some code =>
        constructor
        · simp [token, allowed, decoded, AjaxAnswer.file?]
        · simp [token, allowed, decoded, AjaxAnswer.code?]
    · constructor
      · simp [token, allowed, AjaxAnswer.file?]
      · simp [token, allowed, AjaxAnswer.code?]
  · cases savedAjaxPath with
    | some path =>
      constructor
      · simp [token, isFile path rfl, AjaxAnswer.file?]
      · simp [token, isFile path rfl, AjaxAnswer.code?]
    | none =>
      by_cases absent : params.value "file" = []
      · constructor
        · simp [token, absent, AjaxAnswer.file?, runtimeFile?_nil]
        · simp [token, absent, AjaxAnswer.code?]
      · constructor
        · simp [token, absent, runtimeAnswer_file?]
        · simp [token, absent, runtimeAnswer_file?]

/-- The parameters of a request, read in one of the two ways. -/
def IsToken (request : Request) (token : Text) : Prop :=
  token = (requestParams request).value "token" ∨
    token =
      (overParams (parseQuery request.query)
        (parseQuery request.body)).value "token"

theorem value_store_file {params : Params} :
    Params.value (params.store "file".toList file) "token" =
      params.value "token" := by
  unfold Params.value
  rw [Entries.lookup_store_of_ne _ (by decide)]

theorem value_file_store {params : Params} :
    Params.value (params.store "file".toList file) "file" = file := by
  unfold Params.value
  rw [Entries.lookup_store_self]
  rfl

theorem isAnswer_legacyAjaxFileResponse
    (ajaxFile : Text) (request : Request) :
    app.IsAnswer (app.legacyAjaxFileResponse ajaxFile request)
      ((requestParams request).value "token")
      (app.runtimeFile? (orEmpty ajaxFile)) := by
  have answer := @isAnswer_allowedAjax _ app
    ((requestParams request).store "file".toList (orEmpty ajaxFile)) none []
    (fun _ none => by cases none)
  rw [value_store_file, value_file_store, Option.none_or] at answer
  exact answer

theorem isFile_of_skillAjaxFilePath {skillName ajaxFile : Text}
    (finds : app.paths.skillAjaxFilePath skillName ajaxFile = some path) :
    app.tree.isFile path = true := by
  unfold PathRegistry.skillAjaxFilePath at finds
  split at finds
  · split at finds
    · cases finds
    · exact List.find?_some finds
  · cases finds

/-- What a custom route of a skill runs. -/
theorem isAnswer_skillAjaxFileResponse
    {skillName ajaxFile : Text} (isSkill : isTrue skillName = true)
    (request : Request) :
    app.IsAnswer (app.skillAjaxFileResponse skillName ajaxFile request)
      ((overParams (parseQuery request.query)
        (parseQuery request.body)).value "token")
      (app.skillFile? skillName ajaxFile) := by
  unfold skillAjaxFileResponse skillFile?
  simp only [isSkill, Bool.not_true, Bool.false_eq_true, if_false, if_true]
  cases finds :
      app.paths.skillAjaxFilePath skillName (orEmpty ajaxFile) with
  | none =>
    have answer := @isAnswer_allowedAjax _ app
      ((overParams (parseQuery request.query)
        (parseQuery request.body)).store "file".toList
          (skillName ++ '/' :: orEmpty ajaxFile)) none
      (((app.paths.resolveRouteSegments (pathSegments skillName)).map
        PathRegistry.RouteSpec.skillLayers).getD [])
      (fun _ none => by cases none)
    rw [value_store_file, value_file_store] at answer
    exact answer
  | some path =>
    have answer := @isAnswer_allowedAjax _ app
      ((overParams (parseQuery request.query)
        (parseQuery request.body)).store "file".toList
          (orEmpty ajaxFile)) (some path)
      (((app.paths.resolveRouteSegments (pathSegments skillName)).map
        PathRegistry.RouteSpec.skillLayers).getD [])
      (fun other same => by
        cases same
        exact isFile_of_skillAjaxFilePath finds)
    rw [value_store_file] at answer
    exact answer

theorem isTrue_of_skillAjaxFilePath {skillName ajaxFile : Text}
    (finds : app.paths.skillAjaxFilePath skillName ajaxFile = some path) :
    isTrue skillName = true ∧ isTrue ajaxFile = true := by
  unfold PathRegistry.skillAjaxFilePath at finds
  split at finds
  · next given => exact Bool.and_eq_true_iff.mp given
  · cases finds

theorem of_skillHandler? {segments : List Text} {skillName ajaxFile : Text}
    (found :
      app.skillHandler? segments = some (skillName, ajaxFile, path)) :
    app.paths.skillAjaxFilePath skillName ajaxFile = some path := by
  unfold skillHandler? at found
  obtain ⟨spec, -, found⟩ := Option.bind_eq_some_iff.mp found
  split at found
  · cases found
  · obtain ⟨_, finds, same⟩ := Option.map_eq_some_iff.mp found
    cases same
    exact finds

/-- What a path below `/ajax/` runs. -/
theorem isAnswer_prefixedAjaxFileResponse
    (ajaxPath : Text) (request : Request) :
    ∃ token, IsToken request token ∧
      app.IsAnswer (app.prefixedAjaxFileResponse ajaxPath request) token
        (app.handlerFile? (orEmpty ajaxPath)) := by
  unfold prefixedAjaxFileResponse handlerFile?
  dsimp only
  cases found : app.skillHandler? (pathSegments (orEmpty ajaxPath)) with
  | none =>
    have answer := @isAnswer_legacyAjaxFileResponse _ app
      (orEmpty ajaxPath) request
    rw [orEmpty_orEmpty] at answer
    exact ⟨_, Or.inl rfl, answer⟩
  | some handler =>
    have finds := of_skillHandler? found
    obtain ⟨isSkill, isFile⟩ := isTrue_of_skillAjaxFilePath finds
    have answer := @isAnswer_skillAjaxFileResponse _ app
      handler.1 handler.2.1 isSkill request
    have same : app.skillFile? handler.1 handler.2.1 = some handler.2.2 := by
      unfold skillFile?
      rw [if_pos isSkill, orEmpty_of_isTrue isFile, finds]
      rfl
    rw [same] at answer
    exact ⟨_, Or.inr rfl, answer⟩

end AjaxApp

end DeveloperDashboard.Web
