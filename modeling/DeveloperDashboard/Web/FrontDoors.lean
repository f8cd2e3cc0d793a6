import DeveloperDashboard.Web.Authorization
import DeveloperDashboard.Web.Dispatch

namespace DeveloperDashboard.Web

open Library Perl Session

/-!
# Front doors

`handle` takes every request, and the route adapter has a door of its own for
each path.  Some doors check for foreign contexts themselves, the others do so
when they authorize, and routes of skills are authorized before they run.
-/

/-- What a request can change; pages and processes are the rest. -/
structure WebState (Rest : Type) where
  sessions : List SessionRoot
  users : List Text
  rest : Rest

structure Response where
  status : Nat
  contentType : Text
  body : Text
deriving DecidableEq

/-- What a door comes to: a response or a death, and the state after it. -/
abbrev Served (Rest : Type) :=
  Except Text Response × WebState Rest

/-- `_csrf_forbidden_response`. -/
def csrfForbidden : Response :=
  ⟨403, "text/plain; charset=utf-8".toList, []⟩

def noRoute : Response :=
  ⟨404, "text/html".toList, []⟩

/-- The methods that the adapter calls behind the authorization. -/
inductive Service where
  | rootResponse
  | appsRedirect
  | legacyAjax
  | ajaxSingletonStop
  | dispatchRequest
  | status
  | markedJs
  | tiffJs
  | loadingImage
  | transientAction
deriving DecidableEq

/-- The handlers, whatever they do, and what is read beside the state. -/
structure Backend (Rest : Type) where
  auth : AuthApp
  loginForm : WebRequest → Text
  handleLogin : WebRequest → WebState Rest → Served Rest
  favicon : WebRequest → WebState Rest → Served Rest
  serve :
    Service → RequestContext → WebRequest → WebState Rest → Served Rest

variable {Rest : Type}

namespace Backend

variable (backend : Backend Rest)

def refusalResponse (request : WebRequest) : Refusal → Response
  | .csrfForbidden => csrfForbidden
  | .apiForbidden =>
    ⟨403, "application/json; charset=utf-8".toList,
      "\x7b\"status\":\"forbidden\"\x7d".toList⟩
  | .helperAccessDisabled => ⟨401, "text/plain; charset=utf-8".toList, []⟩
  | .loginPage =>
    ⟨401, "text/html; charset=utf-8".toList, backend.loginForm request⟩

/-- `login_response`. -/
def loginResponse (request : WebRequest) (state : WebState Rest) :
    Served Rest :=
  if backend.auth.site.csrfRejects request then (.ok csrfForbidden, state)
  else backend.handleLogin request state

/-- The state without the session, and without its user if it is a helper. -/
def endSession (record : Config.ConfigHash) (state : WebState Rest) :
    WebState Rest :=
  let username :=
    orEmpty ((Config.recordText record "username").getD [])
  { state with
    users :=
      if orEmpty ((Config.recordText record "role").getD []) =
            "helper".toList ∧ username ≠ [] then
        state.users.filter fun user => decide (user ≠ username)
      else state.users
    sessions :=
      deleteSession state.sessions
        (Config.recordText record "session_id") }

/-- `logout_response`. -/
def logoutResponse (request : WebRequest) (state : WebState Rest) :
    Served Rest :=
  if backend.auth.site.csrfRejects request then (.ok csrfForbidden, state)
  else
    match fromCookie backend.auth.thisYear backend.auth.now state.sessions
        request.headers.cookie request.remoteAddr with
    | .error message => (.error message, state)
    | .ok (session, sessions) =>
      let left := { state with sessions := sessions }
      (.ok ⟨302, "text/plain; charset=utf-8".toList, "Redirecting\n".toList⟩,
        match session with
        | some record => endSession record left
        | none => left)

def runAuthorized (run : RequestContext → WebState Rest → Served Rest)
    (request : WebRequest) (state : WebState Rest) : Served Rest :=
  match backend.auth.authorizeRequest state.users state.sessions request with
  | .error message => (.error message, state)
  | .ok (.refused refusal, sessions) =>
    (.ok (backend.refusalResponse request refusal),
      { state with sessions := sessions })
  | .ok (.authorized context, sessions) =>
    run context { state with sessions := sessions }

def pathOf (request : WebRequest) : Text :=
  if isTrue request.path then request.path else "/".toList

/-- `_handle_request`. -/
def handle (request : WebRequest) (state : WebState Rest) : Served Rest :=
  if backend.auth.site.csrfRejects request then (.ok csrfForbidden, state)
  else if pathOf request = "/login".toList ∧
      request.upperMethod = "POST".toList then
    backend.loginResponse request state
  else if pathOf request = "/logout".toList then
    backend.logoutResponse request state
  else if pathOf request = "/favicon.ico".toList then
    backend.favicon request state
  else
    backend.runAuthorized
      (fun context => backend.serve .dispatchRequest context request)
      request state

end Backend

structure PsgiEnv where
  host : Option Text
  cookie : Option Text
  origin : Option Text
  referer : Option Text
  secFetchSite : Option Text
  apiKey : Option Text
  apiSecret : Option Text
  serverName : Option Text
  serverPort : Option Text
  remoteAddr : Option Text
  serverAddr : Option Text
  pathInfo : Option Text
  queryString : Option Text
  requestMethod : Option Text
  body : Option Text

namespace PsgiEnv

/-- The Host header, or the name and the port of the server. -/
def hostHeader (env : PsgiEnv) : Text :=
  let host := env.host.getD []
  let name := env.serverName.getD []
  let port := env.serverPort.getD []
  if host ≠ [] then host
  else if name ≠ [] ∧ port ≠ [] then name ++ ':' :: port
  else name

def clientAddr (env : PsgiEnv) : Text :=
  let remote := (env.remoteAddr.or env.serverAddr).getD []
  if remote = [] then env.serverName.getD [] else remote

/-- `_request_args`, with `_request_headers`. -/
def requestArgs (env : PsgiEnv) : WebRequest where
  path := env.pathInfo.getD "/".toList
  query := env.queryString.getD []
  method := env.requestMethod.getD "GET".toList
  body := env.body.getD []
  remoteAddr := some env.clientAddr
  headers :=
    { host := some env.hostHeader
      cookie := some (env.cookie.getD [])
      origin := some (env.origin.getD [])
      referer := some (env.referer.getD [])
      secFetchSite := some (env.secFetchSite.getD [])
      apiKey := some (env.apiKey.getD [])
      apiSecret := some (env.apiSecret.getD []) }

end PsgiEnv

inductive Door where
  /-- `_run_backend` -/
  | login
  | logout
  | favicon
  /-- `_run_authorized` -/
  | authorized (service : Service)
deriving DecidableEq

/-- A route: its methods, the paths it matches and what it calls. -/
structure DoorRoute where
  methods : List Text
  matchesPath : Text → Bool
  door : Door

/-- The routes that `get` registers. -/
def getMethods : List Text :=
  ["get".toList, "head".toList]

/-- The routes that `any [qw(get post)]` registers. -/
def getPostMethods : List Text :=
  ["get".toList, "post".toList]

def isPath (pattern : String) (path : Text) : Bool :=
  decide (path = pattern.toList)

def doorRoutes : List DoorRoute :=
  [⟨["post".toList], isPath "/login", .login⟩,
    ⟨getPostMethods, isPath "/", .authorized .rootResponse⟩,
    ⟨getMethods, isPath "/logout", .logout⟩,
    ⟨getMethods, isPath "/apps", .authorized .appsRedirect⟩,
    ⟨getMethods, isPath "/favicon.ico", .favicon⟩,
    ⟨getPostMethods, isPath "/ajax", .authorized .legacyAjax⟩,
    ⟨getPostMethods, isPath "/ajax/singleton/stop",
      .authorized .ajaxSingletonStop⟩,
    ⟨getPostMethods, fun path => (captureAfter "/ajax/".toList path).isSome,
      .authorized .dispatchRequest⟩,
    ⟨getMethods, isPath "/system/status", .authorized .status⟩,
    ⟨getMethods, isPath "/marked.min.js", .authorized .markedJs⟩,
    ⟨getMethods, isPath "/tiff.min.js", .authorized .tiffJs⟩,
    ⟨getMethods, isPath "/loading.webp", .authorized .loadingImage⟩,
    ⟨getMethods, fun path => (captureStatic path).isSome,
      .authorized .dispatchRequest⟩,
    ⟨getMethods,
      fun path =>
        (captureBetween "/app/".toList "/source".toList path).isSome,
      .authorized .dispatchRequest⟩,
    ⟨["get".toList, "head".toList, "post".toList],
      fun path => (captureBetween "/app/".toList "/edit".toList path).isSome,
      .authorized .dispatchRequest⟩,
    ⟨["post".toList], fun path => (captureAction path).isSome,
      .authorized .dispatchRequest⟩,
    ⟨getMethods, fun path => (captureAfter "/app/".toList path).isSome,
      .authorized .dispatchRequest⟩,
    ⟨["post".toList], isPath "/action", .authorized .transientAction⟩]

/-- The last route, behind those of skills. -/
def catchAll : DoorRoute :=
  ⟨getPostMethods, fun _ => true, .authorized .dispatchRequest⟩

structure SkillRoute (Rest : Type) where
  method : Text
  matchesRequest : WebRequest → Bool
  run : WebRequest → WebState Rest → Served Rest

namespace Backend

variable (backend : Backend Rest)

def enter (request : WebRequest) (state : WebState Rest) : Door → Served Rest
  | .login => backend.loginResponse request state
  | .logout => backend.logoutResponse request state
  | .favicon => backend.favicon request state
  | .authorized service =>
    backend.runAuthorized
      (fun context => backend.serve service context request) request state

def routeMethod (request : WebRequest) : Text :=
  request.method.map Char.toLower

def matchingSkillRoutes
    (skillRoutes : List (SkillRoute Rest)) (request : WebRequest) :
    List (SkillRoute Rest) :=
  skillRoutes.filter fun route =>
    decide (route.method = routeMethod request) && route.matchesRequest request

/-- The first route of the table that matches, then one of a skill, then the
last one. -/
def runRoutes (skillRoutes : List (SkillRoute Rest)) (request : WebRequest)
    (state : WebState Rest) : Served Rest :=
  let fits (route : DoorRoute) : Bool :=
    (route.methods.any fun method => decide (method = routeMethod request)) &&
      route.matchesPath request.path
  match doorRoutes.find? fits with
  | some route => backend.enter request state route.door
  | none =>
    match (matchingSkillRoutes skillRoutes request).head? with
    | some route => route.run request state
    | none =>
      if fits catchAll then backend.enter request state catchAll.door
      else (.ok noRoute, state)

/--
A request to the adapter.  When a route of a skill matches, the hook
`_authorize_skill_dashboard_routes` has the request authorized before any
route runs.
-/
def adapter (skillRoutes : List (SkillRoute Rest)) (env : PsgiEnv)
    (state : WebState Rest) : Served Rest :=
  let request := env.requestArgs
  if matchingSkillRoutes skillRoutes request = [] then
    backend.runRoutes skillRoutes request state
  else
    backend.runAuthorized
      (fun _ => backend.runRoutes skillRoutes request) request state

end Backend

/-- The browser says that the request comes from another site. -/
def HasForeignLabel (headers : Headers) : Prop :=
  ∃ rawSite, headers.secFetchSite = some rawSite ∧
    trimBlanks (lowercase rawSite) ∈ SiteNames.foreignFetchSites

structure IsForeign (site : SiteNames) (request : WebRequest) : Prop where
  suspect :
    HasForeignLabel request.headers ∨
      SiteNames.isStateChanging request = true
  names :
    ¬site.NamesDashboard (browserSourceValue request.headers) request.headers

/-- A foreign request that has the label, or gives a source. -/
structure ComesFromElsewhere (site : SiteNames) (request : WebRequest) : Prop
    extends IsForeign site request where
  shown :
    HasForeignLabel request.headers ∨
      browserSourceValue request.headers ≠ []

theorem csrfRejects_of_comesFromElsewhere
    {site : SiteNames} {request : WebRequest}
    (foreign : ComesFromElsewhere site request) :
    site.csrfRejects request = true := by
  have notSame :
      site.requestSourceIsSameSite (browserSourceValue request.headers)
        request.headers = false := by
    rw [Bool.eq_false_iff]
    exact fun same => foreign.names (namesDashboard_of_sameSite same)
  have ofLabel (label : HasForeignLabel request.headers) :
      site.fetchSiteIsForeign request.headers = true := by
    obtain ⟨rawSite, given, isLabel⟩ := label
    unfold SiteNames.fetchSiteIsForeign
    rw [given]
    have notOwn :
        ¬(rawSite = "same-origin".toList ∨ rawSite = "none".toList) := by
      rintro (rfl | rfl)
      · exact absurd isLabel (by decide)
      · exact absurd isLabel (by decide)
    have isForeignSite :
        (SiteNames.foreignFetchSites.any fun site =>
          decide (site = trimBlanks (lowercase rawSite))) = true :=
      List.any_eq_true.mpr ⟨_, isLabel, decide_eq_true rfl⟩
    simp only [Option.any_some, if_neg notOwn, isForeignSite, if_true,
      notSame, Bool.not_false, Bool.or_true]
  unfold SiteNames.csrfRejects
  by_cases label : HasForeignLabel request.headers
  · rw [if_pos (ofLabel label)]
  · have given := foreign.shown.resolve_left label
    have changes := foreign.suspect.resolve_left label
    rw [changes]
    dsimp only
    rw [notSame, if_neg given]
    split
    · rfl
    · rfl

/-- Nothing is run: the answer is a refusal and the state is as before. -/
structure CausesNothing
    (result : Served Rest) (state : WebState Rest) : Prop where
  answer : result.1 = .ok csrfForbidden ∨ result.1 = .ok noRoute
  unchanged : result.2 = state

inductive EntryPoint where
  | handle (request : WebRequest)
  | adapter (env : PsgiEnv)

namespace EntryPoint

def request : EntryPoint → WebRequest
  | handle request => request
  | adapter env => env.requestArgs

def isIcon : EntryPoint → Bool
  | handle _ => false
  | adapter env => isPath "/favicon.ico" env.requestArgs.path

end EntryPoint

namespace Backend

variable (backend : Backend Rest)

def answer (skillRoutes : List (SkillRoute Rest)) (state : WebState Rest) :
    EntryPoint → Served Rest
  | .handle request => backend.handle request state
  | .adapter env => backend.adapter skillRoutes env state

variable {backend} {request : WebRequest} {state : WebState Rest}

theorem runAuthorized_of_rejected
    (rejects : backend.auth.site.csrfRejects request = true)
    (run : RequestContext → WebState Rest → Served Rest) :
    backend.runAuthorized run request state = (.ok csrfForbidden, state) := by
  unfold runAuthorized AuthApp.authorizeRequest
  rw [if_pos rejects]
  rfl

theorem enter_of_rejected
    (rejects : backend.auth.site.csrfRejects request = true)
    {door : Door} (notIcon : door ≠ .favicon) :
    backend.enter request state door = (.ok csrfForbidden, state) := by
  cases door with
  | login => exact if_pos rejects
  | logout => exact if_pos rejects
  | favicon => contradiction
  | authorized service => exact runAuthorized_of_rejected rejects _

theorem isPath_of_door_favicon {route : DoorRoute}
    (isRoute : route ∈ doorRoutes) (isIcon : route.door = .favicon)
    {path : Text} (matchesPath : route.matchesPath path = true) :
    isPath "/favicon.ico" path = true := by
  unfold doorRoutes at isRoute
  simp only [List.mem_cons, List.not_mem_nil, or_false] at isRoute
  rcases isRoute with rfl | rfl | rfl | rfl | rfl | rfl | rfl | rfl | rfl |
    rfl | rfl | rfl | rfl | rfl | rfl | rfl | rfl | rfl
  any_goals cases isIcon
  exact matchesPath

theorem runRoutes_of_rejected
    (rejects : backend.auth.site.csrfRejects request = true)
    (notIcon : isPath "/favicon.ico" request.path = false)
    {skillRoutes : List (SkillRoute Rest)}
    (noSkill : matchingSkillRoutes skillRoutes request = []) :
    CausesNothing (backend.runRoutes skillRoutes request state) state := by
  have refuses {door : Door} (notFavicon : door ≠ .favicon) :
      CausesNothing (backend.enter request state door) state := by
    rw [enter_of_rejected rejects notFavicon]
    exact ⟨Or.inl rfl, rfl⟩
  unfold runRoutes
  dsimp only
  split
  · next route found =>
      refine refuses ?_
      intro isIcon
      have fits := List.find?_some found
      rw [Bool.and_eq_true] at fits
      have icon := isPath_of_door_favicon (List.mem_of_find?_eq_some found)
        isIcon fits.2
      exact Bool.false_ne_true (notIcon.symm.trans icon)
  · rw [noSkill]
    change CausesNothing (if _ then _ else _) state
    split
    · exact refuses (by decide)
    · exact ⟨Or.inr rfl, rfl⟩

theorem causesNothing_of_comesFromElsewhere
    (skillRoutes : List (SkillRoute Rest)) {entry : EntryPoint}
    (foreign : ComesFromElsewhere backend.auth.site entry.request)
    (notIcon : entry.isIcon = false) :
    CausesNothing (backend.answer skillRoutes state entry) state := by
  have rejects := csrfRejects_of_comesFromElsewhere foreign
  cases entry with
  | handle request =>
    have refused :
        backend.handle request state = (.ok csrfForbidden, state) :=
      if_pos rejects
    change CausesNothing (backend.handle request state) state
    rw [refused]
    exact ⟨Or.inl rfl, rfl⟩
  | adapter env =>
    have rejects :
        backend.auth.site.csrfRejects env.requestArgs = true := rejects
    change CausesNothing (backend.adapter skillRoutes env state) state
    unfold adapter
    dsimp only
    split
    · next noSkill => exact runRoutes_of_rejected rejects notIcon noSkill
    · rw [runAuthorized_of_rejected rejects]
      exact ⟨Or.inl rfl, rfl⟩

/-- Handlers that count how often one of them is run. -/
def counting : Backend Nat where
  auth :=
    { site := ⟨fun _ => none, []⟩
      sha256Hex := fun _ => []
      sslProxied := false
      apiFragments := []
      apiFiles := []
      thisYear := 2025
      now := 0 }
  loginForm _ := []
  handleLogin _ state :=
    (.ok ⟨302, [], []⟩, { state with rest := state.rest + 1 })
  favicon _ state := (.ok ⟨200, [], []⟩, state)
  serve _ _ _ state :=
    (.ok ⟨200, [], []⟩, { state with rest := state.rest + 1 })

def localEnv
    (method path : String) (origin secFetchSite : Option String) : PsgiEnv where
  host := some "127.0.0.1:7890".toList
  cookie := none
  origin := origin.map String.toList
  referer := none
  secFetchSite := secFetchSite.map String.toList
  apiKey := none
  apiSecret := none
  serverName := none
  serverPort := none
  remoteAddr := some "127.0.0.1".toList
  serverAddr := none
  pathInfo := some path.toList
  queryString := none
  requestMethod := some method.toList
  body := none

def quietState : WebState Nat :=
  ⟨[], [], 0⟩

theorem not_namesDashboard_nil {site : SiteNames} {headers : Headers} :
    ¬site.NamesDashboard [] headers := by
  rintro ⟨authority, has, -⟩
  obtain ⟨scheme, rest, parsed, -⟩ := has.parsed
  have lengths := congrArg List.length parsed
  rw [List.length_append, List.length_append, List.length_append] at lengths
  have three : "://".toList.length = 3 := rfl
  have zero : (trimBlanks []).length = 0 := rfl
  omega

/-- A request for a handler that another site sends is not served. -/
theorem causesNothing_of_comesFromElsewhere_ajax :
    CausesNothing
      (counting.answer [] quietState
        (.adapter (localEnv "GET" "/ajax/deploy" none
          (some " Cross-Site "))))
      quietState :=
  causesNothing_of_comesFromElsewhere []
    ⟨⟨Or.inl ⟨_, rfl, by decide⟩, not_namesDashboard_nil⟩,
      Or.inl ⟨_, rfl, by decide⟩⟩
    (by decide)

/-- A login without a source is served, and so is the icon. -/
theorem foreign_requests_are_served :
    (IsForeign counting.auth.site
        (localEnv "POST" "/login" none none).requestArgs ∧
      ¬CausesNothing
        (counting.answer [] quietState
          (.handle (localEnv "POST" "/login" none none).requestArgs))
        quietState) ∧
    IsForeign counting.auth.site
        (localEnv "GET" "/favicon.ico" none (some "cross-site")).requestArgs ∧
      ¬CausesNothing
        (counting.answer [] quietState
          (.adapter (localEnv "GET" "/favicon.ico" none
            (some "cross-site"))))
        quietState := by
  refine ⟨⟨⟨Or.inr (by decide), not_namesDashboard_nil⟩, ?_⟩,
    ⟨Or.inl ⟨_, rfl, by decide⟩, not_namesDashboard_nil⟩, ?_⟩
  · intro nothing
    have changed : (1 : Nat) = 0 := congrArg WebState.rest nothing.unchanged
    cases changed
  · intro nothing
    rcases nothing.answer with refused | missing
    · have status : (200 : Nat) = 403 :=
        congrArg Response.status (Except.ok.inj refused)
      cases status
    · have status : (200 : Nat) = 404 :=
        congrArg Response.status (Except.ok.inj missing)
      cases status

end Backend

end DeveloperDashboard.Web
