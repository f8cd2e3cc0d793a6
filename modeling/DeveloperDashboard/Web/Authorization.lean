import DeveloperDashboard.Config.ApiRegistry
import DeveloperDashboard.Session.SessionExpiry

namespace DeveloperDashboard.Web

open Perl

/-!
# Trust tiers

A request from the loopback of this machine, for a name of this machine, is one
of the administrator.  The text of an IPv6 address is brought into its canonical
form by the socket library, which is a parameter.
-/

/-- The class `\s` on a byte string. -/
def isBlank (char : Char) : Bool :=
  decide (9 ≤ char.toNat ∧ char.toNat ≤ 13) || decide (char = ' ')

/-- The substitutions `s/^\s+//` and `s/\s+$//` on a byte string. -/
def trimBlanks (text : Text) : Text :=
  (text.dropWhile isBlank).rdropWhile isBlank

/-- `lc` of a byte string. -/
def lowercase (text : Text) : Text :=
  text.map Char.toLower

/-- The pattern `:\d+`, to the end. -/
def isPort : Text → Bool
  | ':' :: digits => decide (digits ≠ []) && digits.all Char.isDigit
  | _ => false

/-- The class `[0-9A-Fa-f:.]`. -/
def isAddressChar (char : Char) : Bool :=
  char.isDigit || decide ('A' ≤ char ∧ char ≤ 'F') ||
    decide ('a' ≤ char ∧ char ≤ 'f') || char = ':' || char = '.'

/-- The capture of `^\[([0-9A-Fa-f:.]+)\](?::\d+)?$`. -/
def bracketed? : Text → Option Text
  | '[' :: rest =>
    let address := rest.takeWhile isAddressChar
    let behind := rest.dropWhile isAddressChar
    if address ≠ [] ∧ behind.head? = some ']' ∧
        (behind.tail = [] ∨ isPort behind.tail = true) then
      some address
    else none
  | _ => none

/-- The capture of `^([^:]+):\d+$`. -/
def beforePort? (host : Text) : Option Text :=
  if host.takeWhile (· ≠ ':') ≠ [] ∧ isPort (host.dropWhile (· ≠ ':')) then
    some (host.takeWhile (· ≠ ':'))
  else none

/-- `_canonical_host`. -/
def canonicalHost (host : Option Text) : Option Text :=
  host.bind fun host =>
    let host := trimBlanks host
    if host = [] then none
    else
      some (lowercase
        ((bracketed? host).getD ((beforePort? host).getD host)))

/-- The pattern `\A(?:\d{1,3}\.){3}\d{1,3}\z`. -/
def isDottedQuad (value : Text) : Bool :=
  let parts := value.splitOn '.'
  decide (parts.length = 4) && parts.all fun part =>
    decide (1 ≤ part.length ∧ part.length ≤ 3) && part.all Char.isDigit

/-- `_canonical_ip`. -/
def canonicalIp (ipv6 : Text → Option Text) (value : Option Text) : Text :=
  let value := trimBlanks (value.getD [])
  if value = [] then []
  else if isDottedQuad value then value
  else if ':' ∈ value then (ipv6 value).getD (lowercase value)
  else lowercase value

/-- The pattern `25[0-5]|2[0-4][0-9]|1[0-9]{2}|[1-9]?[0-9]`. -/
def isOctet : Text → Bool
  | [units] => units.isDigit
  | [tens, units] => decide ('1' ≤ tens ∧ tens ≤ '9') && units.isDigit
  | [hundreds, tens, units] =>
    (decide (hundreds = '1') && tens.isDigit && units.isDigit) ||
    (decide (hundreds = '2' ∧ '0' ≤ tens ∧ tens ≤ '4') && units.isDigit) ||
    decide (hundreds = '2' ∧ tens = '5' ∧ '0' ≤ units ∧ units ≤ '5')
  | _ => false

def isLoopbackQuad (address : Text) : Bool :=
  let parts := address.splitOn '.'
  decide (parts.length = 4 ∧ parts.head? = some "127".toList) &&
    parts.tail.all isOctet

/-- `_ip_is_loopback`. -/
def ipIsLoopback (address : Text) : Bool :=
  isLoopbackQuad address || decide (address = "::1".toList) ||
    decide (address = "0:0:0:0:0:0:0:1".toList)

/-- The names of this machine that need no configuration. -/
def localNames : List Text :=
  ["localhost".toList, "localhost.localdomain".toList, "localhost6".toList,
    "localhost6.localdomain6".toList]

/-- `host_is_local_alias`. -/
def hostIsLocalAlias
    (ipv6 : Text → Option Text) (extraLoopbackHosts : List Text)
    (host : Option Text) : Bool :=
  (canonicalHost host).any fun host =>
    ipIsLoopback (canonicalIp ipv6 (some host)) ||
      ((extraLoopbackHosts.filterMap fun name => canonicalHost (some name)).any
        fun name => decide (name = host)) ||
      localNames.any fun name => decide (name = host)

inductive Tier where
  | admin
  | helper
  | api
deriving DecidableEq

/-- `_request_is_loopback_admin`. -/
def requestIsLoopbackAdmin
    (ipv6 : Text → Option Text) (extraLoopbackHosts : List Text)
    (remoteAddr : Text) (host : Option Text) : Bool :=
  ipIsLoopback remoteAddr &&
    (host.isNone || hostIsLocalAlias ipv6 extraLoopbackHosts host)

/-- `trust_tier`. -/
def trustTier (ipv6 : Text → Option Text) (sslProxied : Bool)
    (extraLoopbackHosts : List Text) (remoteAddr host : Option Text) : Tier :=
  if sslProxied then .helper
  else if requestIsLoopbackAdmin ipv6 extraLoopbackHosts
      (canonicalIp ipv6 remoteAddr) (canonicalHost host) then
    .admin
  else .helper

example :
    hostIsLocalAlias (fun _ => none) [] (some "LOCALHOST:7890".toList) =
      true := by
  decide +kernel

/-!
# Foreign browser contexts

A request is refused when the browser says that it comes from another site, or
when it may change something and names another site as its source.
-/

/-- The headers of a request; an absent one is undefined or empty. -/
structure Headers where
  host : Option Text
  cookie : Option Text
  origin : Option Text
  referer : Option Text
  secFetchSite : Option Text
  apiKey : Option Text
  apiSecret : Option Text

structure WebRequest where
  path : Text
  query : Text
  method : Text
  body : Text
  remoteAddr : Option Text
  headers : Headers

/-- `uc( $args{method} || 'GET' )`. -/
def WebRequest.upperMethod (request : WebRequest) : Text :=
  if isTrue request.method then request.method.map Char.toUpper
  else "GET".toList

/-- `_browser_source_value`. -/
def browserSourceValue (headers : Headers) : Text :=
  if headers.origin.getD [] ≠ [] then headers.origin.getD []
  else headers.referer.getD []

/-- The class `[A-Za-z0-9+.-]`. -/
def isSchemeChar (char : Char) : Bool :=
  char.isAlphanum || char = '+' || char = '.' || char = '-'

/-- The class `[^/?#]`. -/
def isAuthorityChar (char : Char) : Bool :=
  decide (char ≠ '/' ∧ char ≠ '?' ∧ char ≠ '#')

/-- The capture of `\A[A-Za-z][A-Za-z0-9+.-]*://([^/?#]+)`. -/
def authorityCapture (value : Text) : Option Text :=
  let scheme := value.takeWhile isSchemeChar
  let behind := value.dropWhile isSchemeChar
  if scheme.head?.any Char.isAlpha ∧ "://".toList.isPrefixOf behind ∧
      (behind.drop 3).takeWhile isAuthorityChar ≠ [] then
    some ((behind.drop 3).takeWhile isAuthorityChar)
  else none

/-- `_source_authority`. -/
def sourceAuthority (value : Text) : Option Text :=
  let value := trimBlanks value
  if value = [] ∨ lowercase value = "null".toList then none
  else
    (authorityCapture value).filter fun authority =>
      !authority.any fun char => decide (char = '@') || isBlank char

/-- What the checks of a request read beside it. -/
structure SiteNames where
  ipv6 : Text → Option Text
  /-- `web.ssl_subject_alt_names` -/
  sslSubjectAltNames : List Text

namespace SiteNames

variable (site : SiteNames)

/-- `_request_source_is_same_site`. -/
def requestSourceIsSameSite (source : Text) (headers : Headers) : Bool :=
  (sourceAuthority source).any fun authority =>
    let requestHost := trimBlanks (lowercase (headers.host.getD []))
    (decide (requestHost ≠ []) &&
        decide (lowercase authority = requestHost)) ||
      hostIsLocalAlias site.ipv6 site.sslSubjectAltNames (some authority)

/-- `%FOREIGN_FETCH_SITES`. -/
def foreignFetchSites : List Text :=
  ["cross-site".toList, "same-site".toList]

/-- `_fetch_site_is_foreign`. -/
def fetchSiteIsForeign (headers : Headers) : Bool :=
  headers.secFetchSite.any fun rawSite =>
    if rawSite = "same-origin".toList ∨ rawSite = "none".toList then false
    else if foreignFetchSites.any fun site =>
        decide (site = trimBlanks (lowercase rawSite)) then
      let source := browserSourceValue headers
      decide (source = []) || !site.requestSourceIsSameSite source headers
    else false

/-- `%STATE_CHANGING_METHODS`. -/
def stateChangingMethods : List Text :=
  ["POST".toList, "PUT".toList, "DELETE".toList, "PATCH".toList]

def isStateChanging (request : WebRequest) : Bool :=
  stateChangingMethods.any fun method => decide (method = request.upperMethod)

/-- `_csrf_rejection_response` gives a response. -/
def csrfRejects (request : WebRequest) : Bool :=
  if site.fetchSiteIsForeign request.headers then true
  else if !isStateChanging request then false
  else
    let source := browserSourceValue request.headers
    if source = [] then false
    else !site.requestSourceIsSameSite source request.headers

end SiteNames

structure HasAuthority (source authority : Text) : Prop where
  nonempty : authority ≠ []
  delimited : authority.all isAuthorityChar = true
  parsed :
    ∃ scheme rest,
      trimBlanks source = scheme ++ "://".toList ++ authority ++ rest ∧
        scheme.all isSchemeChar = true ∧
        (scheme.head?.any Char.isAlpha) = true ∧
        (rest.head?.any isAuthorityChar) = false

/-- A source names the host that is asked for, or this machine. -/
def SiteNames.NamesDashboard
    (site : SiteNames) (source : Text) (headers : Headers) : Prop :=
  ∃ authority, HasAuthority source authority ∧
    (lowercase authority =
        trimBlanks (lowercase (headers.host.getD [])) ∨
      hostIsLocalAlias site.ipv6 site.sslSubjectAltNames (some authority) =
        true)

theorem hasAuthority_of_sourceAuthority {source authority : Text}
    (found : sourceAuthority source = some authority) :
    HasAuthority source authority := by
  unfold sourceAuthority at found
  dsimp only at found
  split at found
  · cases found
  · obtain ⟨captured, -⟩ := Option.filter_eq_some_iff.mp found
    unfold authorityCapture at captured
    obtain ⟨⟨starts, slashes, nonempty⟩, same⟩ :=
      Option.ite_none_right_eq_some.mp captured
    obtain rfl := Option.some.inj same
    obtain ⟨behind, slashes⟩ := List.isPrefixOf_iff_prefix.mp slashes
    have dropped : ("://".toList ++ behind).drop 3 = behind := rfl
    rw [← slashes, dropped] at nonempty ⊢
    refine ⟨nonempty, List.all_takeWhile, _,
      behind.dropWhile isAuthorityChar, ?_, List.all_takeWhile, starts, ?_⟩
    · rw [List.append_assoc _ (behind.takeWhile _),
        List.takeWhile_append_dropWhile, List.append_assoc, slashes,
        List.takeWhile_append_dropWhile]
    · cases rest : behind.dropWhile isAuthorityChar with
      | nil => rfl
      | cons char rest =>
        have first := List.head?_dropWhile_not isAuthorityChar behind
        rw [rest] at first
        simpa using first

theorem namesDashboard_of_sameSite
    {site : SiteNames} {source : Text} {headers : Headers}
    (same : site.requestSourceIsSameSite source headers = true) :
    site.NamesDashboard source headers := by
  unfold SiteNames.requestSourceIsSameSite at same
  obtain ⟨authority, found, names⟩ := (Option.any_eq_true _ _).mp same
  refine ⟨authority, hasAuthority_of_sourceAuthority found, ?_⟩
  rw [Bool.or_eq_true, Bool.and_eq_true, decide_eq_true_eq,
    decide_eq_true_eq] at names
  exact names.imp And.right id

open Library Config Session

/-!
# Authorization

`authorize_request` refuses foreign browser contexts first.  A request that is
not the administrator's needs a session, or, on a path that is registered for
some API key, the name and the secret of a key for that path.
-/

inductive Refusal where
  /-- `_csrf_forbidden_response`: 403 and no body -/
  | csrfForbidden
  /-- `_api_forbidden_response`: 403 and `forbidden` -/
  | apiForbidden
  /-- `_helper_access_disabled_response`: 401 and no body -/
  | helperAccessDisabled
  | loginPage
deriving DecidableEq

/-- `_current_request_context`. -/
structure RequestContext where
  tier : Tier
  remoteAddr : Text
  host : Text
  username : Text
  role : Text
  apiKey : Text

/-- What `authorize_request` comes to. -/
inductive AuthOutcome where
  | refused (refusal : Refusal)
  | authorized (context : RequestContext)

def AuthOutcome.isApi : AuthOutcome → Bool
  | refused _ => false
  | authorized context => decide (context.tier = .api)

/-- What is read beside the request, the users and the sessions. -/
structure AuthApp where
  site : SiteNames
  sha256Hex : Text → Text
  /-- `DEVELOPER_DASHBOARD_SSL_PROXIED` -/
  sslProxied : Bool
  apiFragments : List ConfigHash
  apiFiles : ConfigFiles
  thisYear : Nat
  now : Nat

def requestContext
    (request : WebRequest) (tier : Tier) (session : Option ConfigHash)
    (apiKey : Option Text) : RequestContext where
  tier := if apiKey.isSome then .api else tier
  remoteAddr := orEmpty (request.remoteAddr.getD [])
  host := orEmpty (request.headers.host.getD [])
  username :=
    orEmpty ((session.bind fun record => recordText record "username").getD [])
  role :=
    if apiKey.isSome then "api".toList
    else
      orEmpty ((session.bind fun record => recordText record "role").getD [])
  apiKey := orEmpty (apiKey.getD [])

def sessionOutcome (request : WebRequest) : Option ConfigHash → AuthOutcome
  | some record =>
    .authorized (requestContext request .helper (some record) none)
  | none => .refused .loginPage

namespace AuthApp

variable (app : AuthApp)

/-- `_request_trust_tier`. -/
def requestTrustTier (request : WebRequest) : Tier :=
  trustTier app.site.ipv6 app.sslProxied app.site.sslSubjectAltNames
    request.remoteAddr request.headers.host

/-- `_api_keys`. -/
def apiKeys : ConfigHash :=
  apiRegistry app.apiFragments app.apiFiles

def ajaxRoutes : JsonValue → Option (List Text)
  | .hash fields =>
    match Entries.lookup fields "ajax" with
    | some (.array routes) =>
      some ((routes.filterMap JsonValue.plainText).map String.toList)
    | _ => none
  | _ => none

def storedSecret : JsonValue → Text
  | .hash fields => orEmpty ((recordText fields "secret").getD [])
  | _ => []

/-- `_api_route_registered`. -/
def apiRouteRegistered (path : Text) : Bool :=
  isAjaxRoute (String.ofList path) &&
    app.apiKeys.any fun entry =>
      (ajaxRoutes entry.2).any fun routes =>
        routes.any fun route => decide (route = path)

def routesOf (apiKey : Text) : List Text :=
  ((app.apiKeys.lookup (String.ofList apiKey)).bind ajaxRoutes).getD []

/-- `_authorize_api_request`. -/
def authorizeApiRequest (request : WebRequest) : Option Text :=
  let apiKey := request.headers.apiKey.getD []
  let apiSecret := request.headers.apiSecret.getD []
  if apiKey = [] ∨ apiSecret = [] then none
  else
    (app.apiKeys.lookup (String.ofList apiKey)).bind fun entry =>
      (ajaxRoutes entry).bind fun routes =>
        if !routes.any fun route => decide (route = request.path) then none
        else if app.sha256Hex apiSecret ≠ storedSecret entry then none
        else some apiKey

def apiPathOutcome (request : WebRequest) :
    Option ConfigHash → AuthOutcome
  | some record =>
    .authorized (requestContext request .helper (some record) none)
  | none =>
    match app.authorizeApiRequest request with
    | some apiKey => .authorized (requestContext request .helper none apiKey)
    | none => .refused .apiForbidden

/-- `authorize_request`, with the sessions that are left. -/
def authorizeRequest (users : List Text) (sessions : List SessionRoot)
    (request : WebRequest) :
    Except Text (AuthOutcome × List SessionRoot) :=
  if app.site.csrfRejects request then
    .ok (.refused .csrfForbidden, sessions)
  else if app.requestTrustTier request = .admin then
    .ok (.authorized (requestContext request .admin none none), sessions)
  else if app.apiRouteRegistered request.path then
    (fromCookie app.thisYear app.now sessions request.headers.cookie
      request.remoteAddr).map fun found =>
        (app.apiPathOutcome request found.1, found.2)
  else if users = [] then
    .ok (.refused .helperAccessDisabled, sessions)
  else
    (fromCookie app.thisYear app.now sessions request.headers.cookie
      request.remoteAddr).map fun found =>
        (sessionOutcome request found.1, found.2)

structure AdmittedByKey
    (users : List Text) (sessions : List SessionRoot)
    (request : WebRequest) (apiKey : Text) : Prop where
  key : app.authorizeApiRequest request = some apiKey
  admitted :
    ∃ context left,
      app.authorizeRequest users sessions request =
          .ok (.authorized context, left) ∧
        context.tier = .api

end AuthApp

end DeveloperDashboard.Web
