import DeveloperDashboard.Web.Authorization
import DeveloperDashboard.Web.ReachedFiles

namespace DeveloperDashboard.Web

open Library Perl Config Session Skills Skills.PathRegistry

/-!
# Handlers of API keys

A key is registered for some paths below `/ajax`.  What it can run there is
settled by the paths, unless a token is read or the path is `/ajax` itself.
-/

variable {Content : Type}

namespace WebRequest

/-- The request that `dispatch_request` works on. -/
def toRequest (request : WebRequest) : Request where
  path := if isTrue request.path then request.path else ['/']
  query := request.query
  body := request.body
  isPost := decide (request.upperMethod = "POST".toList)

def withParams (request : WebRequest) (query body : Text) : WebRequest :=
  { request with query := query, body := body }

end WebRequest

structure Executes
    (auth : AuthApp) (app : AjaxApp Content)
    (users : List Text) (sessions : List SessionRoot) (apiKey : Text)
    (request : WebRequest) (answer : AjaxAnswer) : Prop where
  admits : auth.AdmittedByKey users sessions request apiKey
  answers : app.answer request.toRequest = some answer

variable {file : Option Path} {code : Text} {answer : AjaxAnswer}

namespace AjaxApp

inductive IsPathOf (app : AjaxApp Content) (file : Path) : Text → Prop
  | runtime (names : List Text) :
      file = app.runtimeRoot ++ ajaxFolder ++ names →
        IsPathOf app file ("/ajax/".toList ++ joinSegments names)
  | skill (skill names : List Text) (layer : Path) :
      layer ∈ app.lookupRoots skill →
        file = layer ++ ajaxFolder ++ names →
          IsPathOf app file ("/ajax/".toList ++ joinSegments (skill ++ names))
  | custom (path : Text) :
      dispatchRequest path false = .customSkillRoute path →
        app.customFile? path = some file → IsPathOf app file path

/--
What a key opens by a path, whatever the parameters are: no code of the
request, one file at most, which the path designates, and one with a path of
its own in the list of the key.
-/
structure OpensOnlyRegistered
    (app : AjaxApp Content) (auth : AuthApp)
    (users : List Text) (sessions : List SessionRoot) (apiKey : Text)
    (request : WebRequest) : Prop where
  noCode :
    ∀ query body code,
      ¬Executes auth app users sessions apiKey
        (request.withParams query body) (.codeBlock code)
  designated :
    ∀ query body file layers,
      Executes auth app users sessions apiKey
          (request.withParams query body) (.savedFile file layers) →
        app.designated? request.path = some file
  sameFile :
    ∀ query body file layers otherQuery otherBody other otherLayers,
      Executes auth app users sessions apiKey
          (request.withParams query body) (.savedFile file layers) →
        Executes auth app users sessions apiKey
            (request.withParams otherQuery otherBody)
            (.savedFile other otherLayers) →
          file = other
  registered :
    ∀ query body file layers,
      Executes auth app users sessions apiKey
          (request.withParams query body) (.savedFile file layers) →
        ∃ route ∈ auth.routesOf apiKey, app.IsPathOf file route

def routeTakesToken : Route → Bool
  | .legacyAjax => true
  | .prefixedAjaxFile _ => true
  | _ => false

def customTakesToken (app : AjaxApp Content) (path : Text) : Bool :=
  (app.customRoute path).any fun route =>
    match route with
    | .skillAjax skillName _ => isTrue skillName
    | .runtimeAjax ajaxFile =>
      routeTakesToken (dispatchRequest ("/ajax/".toList ++ ajaxFile) false)
    | .other => false

def takesToken (app : AjaxApp Content) (path : Text) : Bool :=
  match dispatchRequest path false with
  | .customSkillRoute path => app.customTakesToken path
  | route => routeTakesToken route

structure OpensNoMore
    (app : AjaxApp Content) (routes : List Text) (path : Text) : Prop where
  noToken :
    app.takesToken path = true → app.tokensAllowed = true →
      ∀ token : Text, Perl.isTrue token = true →
        app.decodePayload token = none
  noFile :
    path = "/ajax".toList → ∀ file, app.runtimeFile? file = none
  registered :
    ∀ file, app.designated? path = some file →
      ∃ route ∈ routes, app.IsPathOf file route

inductive Answers
    (app : AjaxApp Content) (request : Request) :
    Bool → Option Path → Option AjaxAnswer → Prop
  | nothing {answer : Option AjaxAnswer} :
      answer.bind AjaxAnswer.file? = none →
        answer.bind AjaxAnswer.code? = none →
          Answers app request false none answer
  | runs {answer : AjaxAnswer} {token : Text} {file : Option Path} :
      IsToken request token → app.IsAnswer answer token file →
        Answers app request true file (some answer)

variable {app : AjaxApp Content}

theorem answers_route
    {request : Request} {route : Route} (notLegacy : route ≠ .legacyAjax) :
    app.Answers request (routeTakesToken route) (app.routeFile? route)
      (app.routeAnswer request route) := by
  cases route with
  | legacyAjax => contradiction
  | prefixedAjaxFile ajaxPath =>
    obtain ⟨token, isToken, answer⟩ :=
      @isAnswer_prefixedAjaxFileResponse _ app ajaxPath request
    exact .runs isToken answer
  | _ => exact .nothing rfl rfl

theorem dispatchRequest_below_ajax_ne (rest : Text) :
    dispatchRequest ("/ajax/".toList ++ rest) false ≠ .legacyAjax := by
  rw [dispatchRequest_below_ajax]
  split
  · exact Route.noConfusion
  · cases lineCapture rest with
    | none => exact Route.noConfusion
    | some line => exact Route.noConfusion

theorem answers_custom (path : Text) (request : Request) :
    app.Answers request (app.customTakesToken path) (app.customFile? path)
      (app.customAnswer path request) := by
  unfold customTakesToken customFile? customAnswer
  rcases app.customRoute path with _ | ⟨skillName, ajaxFile⟩ | ajaxFile | _
  · exact .nothing rfl rfl
  · change app.Answers request (isTrue skillName)
      (app.skillFile? skillName ajaxFile)
      (some (app.skillAjaxFileResponse skillName ajaxFile request))
    by_cases isSkill : isTrue skillName = true
    · rw [isSkill]
      exact .runs (Or.inr rfl) (isAnswer_skillAjaxFileResponse isSkill request)
    · unfold skillFile? skillAjaxFileResponse
      rw [Bool.eq_false_iff.mpr isSkill]
      exact .nothing rfl rfl
  · have inner := @answers_route _ app request _
      (dispatchRequest_below_ajax_ne ajaxFile)
    have sameRoute :
        dispatchRequest ("/ajax/".toList ++ ajaxFile) request.isPost =
          dispatchRequest ("/ajax/".toList ++ ajaxFile) false := by
      rw [dispatchRequest_below_ajax, dispatchRequest_below_ajax]
    change app.Answers request
      (routeTakesToken (dispatchRequest ("/ajax/".toList ++ ajaxFile) false))
      (app.routeFile? (dispatchRequest ("/ajax/".toList ++ ajaxFile) false))
      (app.routeAnswer request
        (dispatchRequest ("/ajax/".toList ++ ajaxFile) request.isPost))
    rw [sameRoute]
    exact inner
  · exact .nothing rfl rfl

theorem answers_below_ajax {request : Request} {rest : Text}
    (isPath : request.path = "/ajax/".toList ++ rest) :
    app.Answers request (app.takesToken request.path)
      (app.designated? request.path) (app.answer request) := by
  have sameRoute :
      dispatchRequest request.path request.isPost =
        dispatchRequest request.path false := by
    rw [isPath, dispatchRequest_below_ajax, dispatchRequest_below_ajax]
  have notLegacy : dispatchRequest request.path false ≠ .legacyAjax :=
    isPath ▸ dispatchRequest_below_ajax_ne rest
  unfold takesToken designated? answer
  rw [sameRoute]
  have routed := @answers_route _ app request _ notLegacy
  revert routed
  cases dispatchRequest request.path false with
  | customSkillRoute path =>
    intro _
    exact answers_custom path request
  | _ => exact id

theorem isAnswer_ajax {request : Request}
    (isPath : request.path = "/ajax".toList) :
    app.answer request = some (app.legacyAjaxResponse request) ∧
      app.IsAnswer (app.legacyAjaxResponse request)
        ((requestParams request).value "token")
        (app.runtimeFile? ((requestParams request).value "file")) := by
  refine ⟨?_, ?_⟩
  · unfold answer
    rw [isPath]
    cases request.isPost with
    | false => rfl
    | true => rfl
  · exact @isAnswer_allowedAjax _ app (requestParams request) none []
      (fun _ none => by cases none)

theorem Answers.of_code {request : Request} {takes : Bool}
    (answers : app.Answers request takes file (some (.codeBlock code))) :
    takes = true ∧ app.tokensAllowed = true ∧
      ∃ token, Perl.isTrue token = true ∧
        app.decodePayload token = some code := by
  rcases answers with ⟨-, noCode⟩ | @⟨_, token, _, -, is⟩
  · cases noCode
  · have runs := is.code?
    split at runs
    · next given =>
        rw [Bool.and_eq_true] at given
        exact ⟨rfl, given.2, token, given.1, runs.symm⟩
    · cases runs

theorem IsAnswer.eq_of_savedFile
    {token : Text} {path : Path} {layers : List Path}
    (is : app.IsAnswer (.savedFile path layers) token file) :
    file = some path := by
  have runs := is.file?
  split at runs
  · cases runs
  · exact runs.symm

theorem Answers.eq_of_savedFile
    {request : Request} {takes : Bool} {path : Path} {layers : List Path}
    (answers :
      app.Answers request takes file (some (.savedFile path layers))) :
    file = some path := by
  rcases answers with ⟨noFile, -⟩ | ⟨-, is⟩
  · cases noFile
  · exact is.eq_of_savedFile

theorem exists_savedFile {file : Path} (runs : answer.file? = some file) :
    ∃ layers, answer = .savedFile file layers := by
  cases answer with
  | savedFile path layers =>
    obtain rfl := Option.some.inj runs
    exact ⟨layers, rfl⟩
  | _ => cases runs

theorem eq_codeBlock
    (runs : answer.code? = some code) : answer = .codeBlock code := by
  cases answer with
  | codeBlock other =>
    obtain rfl := Option.some.inj runs
    rfl
  | _ => cases runs

end AjaxApp

/-- What is escaped in a query that is to give a token. -/
def tokenSafe : PercentCoding.SafeSet where
  isSafe char := char.isAlphanum || decide (256 ≤ char.toNat)
  percent := by decide

theorem exists_query_token (token : Text) :
    ∃ query, (parseQuery query).value "token" = token := by
  have coded : PercentCoding.IsCoded tokenSafe token := by
    intro char _ isUnsafe
    have wide := (Bool.or_eq_false_iff.mp isUnsafe).2
    exact Nat.lt_of_not_le (of_decide_eq_false wide)
  have plain :
      '&' ∉ "token=".toList ++
        token.flatMap (PercentCoding.escapeChar tokenSafe) := by
    rw [List.mem_append, not_or]
    exact ⟨by decide,
      PercentCoding.not_mem_flatMap tokenSafe coded (by decide) (by decide)
        (by decide)⟩
  have decoded :
      uriUnescape (token.flatMap (PercentCoding.escapeChar tokenSafe)) =
        token := by
    have whole := PercentCoding.decode_flatMap_append tokenSafe coded []
    rw [List.append_nil] at whole
    exact whole.trans (List.append_nil _)
  refine ⟨"token=".toList ++
    token.flatMap (PercentCoding.escapeChar tokenSafe), ?_⟩
  unfold parseQuery
  rw [List.splitOn_eq_singleton plain]
  exact decoded

theorem value_file_query {file : Text} (plain : isPlainFileName file = true) :
    (parseQuery ("file=".toList ++ file)).value "file" = file ∧
      (parseQuery ("file=".toList ++ file)).value "token" = [] := by
  unfold isPlainFileName at plain
  have chars := List.all_eq_true.mp (Bool.and_eq_true_iff.mp plain).2
  have noChar {char : Char} (notFile : isFileChar char = false)
      (notSlash : char ≠ '/') : char ∉ file := by
    intro isIn
    have allowed := chars char isIn
    rw [notFile, Bool.false_or, decide_eq_true_eq] at allowed
    exact notSlash allowed
  have noAmpersand : '&' ∉ "file=".toList ++ file := by
    rw [List.mem_append, not_or]
    exact ⟨by decide, noChar (by decide) (by decide)⟩
  have decoded : uriUnescape (plusToSpace file) = file := by
    have noPlus : plusToSpace file = file := by
      refine (List.map_congr_left ?_).trans (List.map_id file)
      intro char isIn
      refine if_neg ?_
      rintro rfl
      exact noChar (by decide) (by decide) isIn
    rw [noPlus]
    exact PercentCoding.decode_of_no_percent
      (noChar (by decide) (by decide))
  unfold parseQuery
  rw [List.splitOn_eq_singleton noAmpersand]
  exact ⟨decoded, rfl⟩

theorem eq_of_isToken {query token : Text} {path : Text} {isPost : Bool}
    (isToken : AjaxApp.IsToken ⟨path, query, [], isPost⟩ token) :
    token = (parseQuery query).value "token" := by
  rcases isToken with same | same
  · cases isPost with
    | false => exact same
    | true => exact same
  · exact same

namespace AuthApp

variable {auth : AuthApp} {users : List Text} {sessions : List SessionRoot}
  {request : WebRequest} {apiKey : Text}

theorem eq_or_of_isAjaxRoute {path : Text}
    (isAjax : isAjaxRoute (String.ofList path) = true) :
    path = "/ajax".toList ∨ ∃ rest, path = "/ajax/".toList ++ rest := by
  unfold isAjaxRoute at isAjax
  rw [Bool.or_eq_true, decide_eq_true_eq] at isAjax
  rcases isAjax with same | below
  · exact Or.inl (by rw [← same, String.toList_ofList])
  · obtain ⟨rest, same⟩ := List.isPrefixOf_iff_prefix.mp below
    rw [@String.toList_ofList path] at same
    exact Or.inr ⟨rest, same.symm⟩

/-- A key admits a request only below `/ajax`. -/
theorem AdmittedByKey.isAjax
    (admits : auth.AdmittedByKey users sessions request apiKey) :
    request.path = "/ajax".toList ∨
      ∃ rest, request.path = "/ajax/".toList ++ rest := by
  obtain ⟨context, left, authorizes, isApi⟩ := admits.admitted
  unfold authorizeRequest at authorizes
  split at authorizes
  · cases authorizes
  · split at authorizes
    · cases authorizes
      cases isApi
    · split at authorizes
      · next registered =>
          unfold apiRouteRegistered at registered
          exact eq_or_of_isAjaxRoute (Bool.and_eq_true_iff.mp registered).1
      · split at authorizes
        · cases authorizes
        · cases found : fromCookie auth.thisYear auth.now sessions
              request.headers.cookie request.remoteAddr with
          | error message =>
            rw [found] at authorizes
            cases authorizes
          | ok session =>
            rw [found] at authorizes
            have same := congrArg Prod.fst (Except.ok.inj authorizes)
            change sessionOutcome request session.1 = _ at same
            unfold sessionOutcome at same
            split at same
            · cases same
              cases isApi
            · cases same

theorem admittedByKey_withParams (query body : Text) :
    auth.AdmittedByKey users sessions (request.withParams query body)
        apiKey ↔
      auth.AdmittedByKey users sessions request apiKey :=
  ⟨fun admits => ⟨admits.key, admits.admitted⟩,
    fun admits => ⟨admits.key, admits.admitted⟩⟩

end AuthApp

namespace AjaxApp

variable {app : AjaxApp Content} {auth : AuthApp} {users : List Text}
  {sessions : List SessionRoot} {request : WebRequest} {apiKey : Text}

theorem toRequest_path
    (isAjax :
      request.path = "/ajax".toList ∨
        ∃ rest, request.path = "/ajax/".toList ++ rest) :
    request.toRequest.path = request.path := by
  refine if_pos (decide_eq_true ?_)
  rcases isAjax with same | ⟨rest, same⟩
  · rw [same]
    decide
  · rw [same]
    exact ⟨List.cons_ne_nil _ _, fun zero => by cases zero⟩

theorem designated?_ajax :
    app.designated? "/ajax".toList = none ∧
      app.takesToken "/ajax".toList = true :=
  ⟨rfl, rfl⟩

section

variable (admits : auth.AdmittedByKey users sessions request apiKey)

include admits

theorem opensOnlyRegistered_of_opensNoMore
    (opens : app.OpensNoMore (auth.routesOf apiKey) request.path) :
    app.OpensOnlyRegistered auth users sessions apiKey request := by
  have isAjax := admits.isAjax
  have designates {query body : Text} {file : Path} {layers : List Path}
      (executes :
        Executes auth app users sessions apiKey
          (request.withParams query body) (.savedFile file layers)) :
      app.designated? request.path = some file := by
    have answers := executes.answers
    have isPath : (request.withParams query body).toRequest.path =
        request.path := toRequest_path isAjax
    rcases isAjax with isAjax | ⟨rest, isAjax⟩
    · obtain ⟨same, is⟩ := @isAnswer_ajax _ app _ (isPath.trans isAjax)
      rw [answers] at same
      rw [← Option.some.inj same] at is
      have none := is.eq_of_savedFile
      rw [opens.noFile isAjax] at none
      cases none
    · have below :=
        @answers_below_ajax _ app _ rest (isPath.trans isAjax)
      rw [answers, isPath] at below
      exact below.eq_of_savedFile
  refine ⟨?_, fun _ _ _ _ executes => designates executes, ?_, ?_⟩
  · intro query body code executes
    have answers := executes.answers
    have isPath : (request.withParams query body).toRequest.path =
        request.path := toRequest_path isAjax
    have token :
        app.takesToken request.path = true ∧ app.tokensAllowed = true ∧
          ∃ token, Perl.isTrue token = true ∧
            app.decodePayload token = some code := by
      rcases isAjax with isAjax | ⟨rest, isAjax⟩
      · obtain ⟨same, is⟩ := @isAnswer_ajax _ app _ (isPath.trans isAjax)
        rw [answers] at same
        rw [← Option.some.inj same] at is
        obtain ⟨-, allowed, decodes⟩ :=
          (Answers.runs (Or.inl rfl) is).of_code
        exact ⟨isAjax ▸ designated?_ajax.2, allowed, decodes⟩
      · have below :=
          @answers_below_ajax _ app _ rest (isPath.trans isAjax)
        rw [answers, isPath] at below
        exact below.of_code
    obtain ⟨takes, allowed, given, isTrue, decodes⟩ := token
    rw [opens.noToken takes allowed given isTrue] at decodes
    cases decodes
  · intro _ _ file _ _ _ other _ executes executesOther
    exact Option.some.inj
      ((designates executes).symm.trans (designates executesOther))
  · intro _ _ file _ executes
    exact opens.registered file (designates executes)

theorem executes_withParams
    {query body : Text}
    (answers :
      app.answer (request.withParams query body).toRequest = some answer) :
    Executes auth app users sessions apiKey
      (request.withParams query body) answer :=
  ⟨(AuthApp.admittedByKey_withParams query body).mpr admits, answers⟩

theorem exists_executes_token
    (takes : app.takesToken request.path = true)
    (allowed : app.tokensAllowed = true) {token : Text}
    (given : Perl.isTrue token = true)
    (decodes : app.decodePayload token = some code) :
    ∃ query,
      Executes auth app users sessions apiKey
        (request.withParams query []) (.codeBlock code) := by
  obtain ⟨query, isToken⟩ := exists_query_token token
  refine ⟨query, executes_withParams admits ?_⟩
  have isPath :
      (request.withParams query []).toRequest.path = request.path :=
    toRequest_path admits.isAjax
  have ofAnswer {answer : AjaxAnswer} {read : Text} {file : Option Path}
      (isRead : IsToken (request.withParams query []).toRequest read)
      (is : app.IsAnswer answer read file) :
      answer = .codeBlock code := by
    have same : read = token := (eq_of_isToken isRead).trans isToken
    refine eq_codeBlock ?_
    rw [is.code?, same, given, allowed]
    exact decodes
  rcases admits.isAjax with isAjax | ⟨rest, isAjax⟩
  · obtain ⟨same, is⟩ := @isAnswer_ajax _ app _ (isPath.trans isAjax)
    rw [same, ofAnswer (Or.inl rfl) is]
  · have below := @answers_below_ajax _ app _ rest (isPath.trans isAjax)
    rw [isPath, takes] at below
    generalize app.answer _ = answer at below
    rcases below with _ | ⟨isRead, is⟩
    rw [ofAnswer isRead is]

theorem exists_executes_designated
    {file : Path} (designates : app.designated? request.path = some file) :
    ∃ layers,
      Executes auth app users sessions apiKey
        (request.withParams [] []) (.savedFile file layers) := by
  have isPath :
      (request.withParams [] []).toRequest.path = request.path :=
    toRequest_path admits.isAjax
  rcases admits.isAjax with isAjax | ⟨rest, isAjax⟩
  · rw [isAjax, designated?_ajax.1] at designates
    cases designates
  · have below := @answers_below_ajax _ app _ rest (isPath.trans isAjax)
    rw [isPath, designates] at below
    cases answers : app.answer (request.withParams [] []).toRequest with
    | none =>
      rw [answers] at below
      generalize app.takesToken request.path = takes at below
      cases below
    | some answer =>
      rw [answers] at below
      generalize app.takesToken request.path = takes at below
      rcases below with _ | ⟨isRead, is⟩
      have noToken := eq_of_isToken isRead
      have runs := is.file?
      rw [noToken] at runs
      obtain ⟨layers, rfl⟩ := exists_savedFile runs
      exact ⟨layers, executes_withParams admits answers⟩

theorem exists_executes_file
    (isAjax : request.path = "/ajax".toList) {name : Text} {file : Path}
    (isSaved : app.runtimeFile? name = some file) :
    ∃ query layers,
      Executes auth app users sessions apiKey
        (request.withParams query []) (.savedFile file layers) := by
  have plain : isPlainFileName name = true := by
    unfold runtimeFile? at isSaved
    split at isSaved
    · next isPath => exact (of_savedAjaxFilePath isPath).1
    · cases isSaved
  obtain ⟨isName, noToken⟩ := value_file_query plain
  have isPath :
      (request.withParams ("file=".toList ++ name) []).toRequest.path =
        "/ajax".toList :=
    (toRequest_path admits.isAjax).trans isAjax
  obtain ⟨same, is⟩ := @isAnswer_ajax _ app _ isPath
  have noBody :
      requestParams (request.withParams ("file=".toList ++ name) []).toRequest =
        parseQuery ("file=".toList ++ name) := by
    unfold requestParams
    split
    · rfl
    · rfl
  have runs := is.file?
  rw [noBody, noToken, isName, isSaved] at runs
  obtain ⟨layers, isFile⟩ := exists_savedFile runs
  rw [isFile] at same
  exact ⟨_, layers, executes_withParams admits same⟩

end

theorem opensOnlyRegistered_iff
    (admits : auth.AdmittedByKey users sessions request apiKey) :
    app.OpensOnlyRegistered auth users sessions apiKey request ↔
      app.OpensNoMore (auth.routesOf apiKey) request.path := by
  constructor
  · intro opens
    refine ⟨?_, ?_, ?_⟩
    · intro takes allowed token given
      by_contra decodes
      obtain ⟨code, decodes⟩ := Option.ne_none_iff_exists'.mp decodes
      obtain ⟨query, executes⟩ :=
        exists_executes_token admits takes allowed given decodes
      exact opens.noCode query [] code executes
    · intro isAjax name
      by_contra isSaved
      obtain ⟨file, isSaved⟩ := Option.ne_none_iff_exists'.mp isSaved
      obtain ⟨query, layers, executes⟩ :=
        exists_executes_file admits isAjax isSaved
      have designates := opens.designated query [] file layers executes
      rw [isAjax, designated?_ajax.1] at designates
      cases designates
    · intro file designates
      obtain ⟨layers, executes⟩ :=
        exists_executes_designated admits designates
      exact opens.registered [] [] file layers executes
  · exact opensOnlyRegistered_of_opensNoMore admits

def savedTree : FileTree Text Unit where
  entries :=
    ([[], ["root"], ["root", "dashboards"], ["root", "dashboards", "ajax"]] :
        List (List String)).map (fun names =>
          (names.map String.toList, .folder)) ++
      [(["root", "dashboards", "ajax", "other"].map String.toList, .file ())]
  closed := by decide +kernel

def savedApp : AjaxApp Unit where
  tree := savedTree
  runtimeRoot := ["root".toList]
  upperRoots := []
  tokensAllowed := false
  decodePayload _ := none
  customRoute _ := none

def keyAuth (route : String) : AuthApp where
  site := ⟨fun _ => none, []⟩
  sha256Hex text :=
    if text = "s3cret".toList then
      ("1ec1c26b50d5d3c58d9583181af8076655fe0075" ++
        "6bf7285940ba3670f99fcba0").toList
    else []
  sslProxied := false
  apiFragments := []
  apiFiles :=
    [some
      [("ci", .hash
          [("secret", .string
              ("1ec1c26b50d5d3c58d9583181af8076655fe0075" ++
                "6bf7285940ba3670f99fcba0")),
            ("ajax", .array [.string route])])]]
  thisYear := 2025
  now := 0

def keyRequest (path query : String) : WebRequest where
  path := path.toList
  query := query.toList
  method := "GET".toList
  body := []
  remoteAddr := some "10.0.0.5".toList
  headers :=
    { host := some "dashboard.example".toList
      cookie := none
      origin := none
      referer := none
      secFetchSite := none
      apiKey := some "ci".toList
      apiSecret := some "s3cret".toList }

theorem admittedByKey_keyRequest :
    (keyAuth "/ajax").AdmittedByKey [] [] (keyRequest "/ajax" "")
      "ci".toList := by
  refine ⟨by decide +kernel, ?_⟩
  have outcome :
      ((keyAuth "/ajax").authorizeRequest [] []
        (keyRequest "/ajax" "")).toOption.map
          (fun found => found.1.isApi) = some true := by
    decide +kernel
  revert outcome
  rcases (keyAuth "/ajax").authorizeRequest [] []
    (keyRequest "/ajax" "") with message | ⟨refusal | context, left⟩
  · exact fun absurd => by cases absurd
  · exact fun absurd => by cases absurd
  · exact fun isApi =>
      ⟨context, left, rfl, of_decide_eq_true (Option.some.inj isApi)⟩

theorem opensOnlyRegistered_iff_ajax :
    savedApp.OpensOnlyRegistered (keyAuth "/ajax") [] [] "ci".toList
        (keyRequest "/ajax" "") ↔
      savedApp.OpensNoMore ((keyAuth "/ajax").routesOf "ci".toList)
        (keyRequest "/ajax" "").path :=
  opensOnlyRegistered_iff admittedByKey_keyRequest

/-- A key for `/ajax` runs a file that is registered for no key. -/
theorem key_for_ajax_runs_other_file :
    (keyAuth "/ajax").AdmittedByKey [] [] (keyRequest "/ajax" "")
        "ci".toList ∧
      ¬savedApp.OpensOnlyRegistered (keyAuth "/ajax") [] [] "ci".toList
        (keyRequest "/ajax" "") := by
  refine ⟨admittedByKey_keyRequest, ?_⟩
  intro opens
  have answers :
      savedApp.answer
          ((keyRequest "/ajax" "").withParams "file=other".toList
            []).toRequest =
        some (.savedFile
          (["root", "dashboards", "ajax", "other"].map String.toList) []) := by
    decide +kernel
  have designates := opens.designated _ _ _ _
    (executes_withParams admittedByKey_keyRequest answers)
  cases designates

end AjaxApp

end DeveloperDashboard.Web
