import DeveloperDashboard.Library.UrlReference
import DeveloperDashboard.Web.Authorization

namespace DeveloperDashboard.Web

open Library Perl

/-!
# Redirects

After a login a helper is sent to a path of the dashboard.  A plain request to
the TLS port is sent to the host that it names, if the certificate covers it,
and else to the address of the server.
-/

/-- The class `[\x00-\x1f\x7f]`. -/
def isControlByte (char : Char) : Bool :=
  decide (char.toNat < 0x20 ∨ char.toNat = 0x7f)

def isLocalPath (target : Text) : Bool :=
  decide (target.head? = some '/') && !"//".toList.isPrefixOf target &&
    !target.any fun char => decide (char = '\\') || isControlByte char

/-- The pattern `\A/login(?:\z|[/?#])`. -/
def isLoginTarget (target : Text) : Bool :=
  "/login".toList.isPrefixOf target &&
    (target.drop 6).head?.all fun char =>
      decide (char = '/' ∨ char = '?' ∨ char = '#')

/-- `_sanitize_redirect_target`. -/
def sanitizeRedirectTarget (target : Option Text) : Text :=
  let target := trimBlanks (target.getD [])
  if target = [] ∨ !isLocalPath target ∨ isLoginTarget target then
    "/".toList
  else target

/-- `_login_redirect_target`. -/
def loginRedirectTarget (path query : Text) : Text :=
  sanitizeRedirectTarget
    (some ((if path = [] then "/".toList else path) ++
      if query = [] then [] else '?' :: query))

/-- `_safe_redirect_target`. -/
def safeRedirectTarget (target : Option Text) : Text :=
  let target := target.getD []
  if target = [] ∨ !isLocalPath target then "/".toList else target

/-- The class `[A-Za-z0-9._-]`. -/
def isHostChar (char : Char) : Bool :=
  char.isAlphanum || decide (char = '.' ∨ char = '_' ∨ char = '-')

/-- The pattern `\d{1,5}`, to the end. -/
def isPortNumber (port : Text) : Bool :=
  decide (1 ≤ port.length ∧ port.length ≤ 5) && port.all Char.isDigit

def portNumber (port : Text) : Nat :=
  port.foldl (fun number digit => 10 * number + (digit.toNat - 48)) 0

/-- The capture of `(?::(\d{1,5}))?\z`, which may be undefined. -/
def portCapture : Text → Option (Option Text)
  | [] => some none
  | ':' :: port => if isPortNumber port then some (some port) else none
  | _ => none

/-- The captures of `\A\[([0-9A-Fa-f:.]{2,45})\](?::(\d{1,5}))?\z`. -/
def bracketCaptures : Text → Option (Text × Option Text)
  | '[' :: rest =>
    let address := rest.takeWhile isAddressChar
    let behind := rest.dropWhile isAddressChar
    if 2 ≤ address.length ∧ address.length ≤ 45 ∧
        behind.head? = some ']' then
      (portCapture behind.tail).map fun port => (address, port)
    else none
  | _ => none

/--
The captures of
`\A([A-Za-z0-9](?:[A-Za-z0-9._-]*[A-Za-z0-9])?)(?::(\d{1,5}))?\z`.
-/
def nameCaptures (authority : Text) : Option (Text × Option Text) :=
  let name := authority.takeWhile isHostChar
  if (name.head?.any Char.isAlphanum) && (name.getLast?.any Char.isAlphanum)
  then
    (portCapture (authority.dropWhile isHostChar)).map fun port =>
      (name, port)
  else none

def isUsablePort (port : Text) : Bool :=
  isPortNumber port &&
    decide (1 ≤ portNumber port ∧ portNumber port ≤ 65535)

/-- `_split_request_authority`. -/
def splitRequestAuthority
    (authority portOverride : Option Text) : Option (Text × Option Text) :=
  let authority := authority.getD []
  if authority = [] ∨ 255 < authority.length then none
  else
    ((bracketCaptures authority).or (nameCaptures authority)).bind
      fun captures =>
        let port := portOverride.or captures.2
        if port.all isUsablePort then some (lowercase captures.1, port)
        else none

def writtenHost (host : Text) : Text :=
  if ':' ∈ host then '[' :: host ++ [']'] else host

def writtenPort (port : Option Text) : Text :=
  match port with
  | some port => ':' :: port
  | none => []

/-- `_redirect_authority`. -/
def redirectAuthority (host : Text) (port : Option Text) : Text :=
  if host = [] then [] else writtenHost host ++ writtenPort port

/-- The substitution `s/^\[(.+)\](?::\d+)?$/$1/`, when it matches. -/
def unbracketed? : Text → Option Text
  | '[' :: rest =>
    let front := rest.rdropWhile isDigit
    let inner :=
      if rest.getLast? = some ']' then rest.dropLast
      else if front ≠ rest ∧ "]:".toList.isSuffixOf front then
        front.dropLast.dropLast
      else []
    if inner ≠ [] ∧ '\n' ∉ inner then some inner else none
  | _ => none

/-- The substitution `s/^([^:]+):\d+$/$1/`, when it matches. -/
def withoutPort? (name : Text) : Option Text :=
  let front := name.takeWhile (· ≠ ':')
  let digits := (name.dropWhile (· ≠ ':')).drop 1
  if front ≠ [] ∧ digits ≠ [] ∧ digits.all isDigit then some front else none

/-- `_normalize_ssl_subject_alt_name`. -/
def normalizeSslSubjectAltName (name : Text) : Text :=
  let name := trim name
  let name := (unbracketed? name).getD name
  lowercase ((withoutPort? name).getD name)

/-- `_ssl_subject_alt_name_is_wildcard`. -/
def sslSubjectAltNameIsWildcard (name : Text) : Bool :=
  [[], "*".toList, "0.0.0.0".toList, "::".toList,
    "0:0:0:0:0:0:0:0".toList].any fun wildcard => decide (wildcard = name)

structure WebServer where
  host : Option Text
  sslSubjectAltNames : List Text

namespace WebServer

variable (server : WebServer)

/-- `_ssl_expected_subject_alt_names`. -/
def expectedSubjectAltNames : List Text :=
  (["localhost".toList, "127.0.0.1".toList, "::1".toList] ++
      server.host.toList ++ server.sslSubjectAltNames).foldl
    (fun names name =>
      let normalized := normalizeSslSubjectAltName name
      if sslSubjectAltNameIsWildcard normalized ||
          names.any fun other => decide (other = normalized) then
        names
      else names ++ [normalized])
    []

/-- `_host_is_loopback_literal`. -/
def hostIsLoopbackLiteral (host : Text) : Bool :=
  decide (host ≠ []) && ipIsLoopback host

/-- `_redirect_host_is_allowed`. -/
def redirectHostIsAllowed (host : Text) : Bool :=
  hostIsLoopbackLiteral host ||
    server.expectedSubjectAltNames.any fun name => decide (name = host)

/-- `_allowlisted_redirect_authority`. -/
def allowlistedRedirectAuthority (authority : Option Text) : Text :=
  match splitRequestAuthority authority none with
  | none => []
  | some (host, port) =>
    if server.redirectHostIsAllowed host then redirectAuthority host port
    else []

structure RedirectEnv where
  httpHost : Option Text
  serverName : Option Text
  serverPort : Option Text
  scriptName : Option Text
  pathInfo : Option Text
  queryString : Option Text

def ownAddress (env : RedirectEnv) : Option (Text × Option Text) :=
  let port := env.serverPort.getD "443".toList
  splitRequestAuthority (some (env.serverName.getD "127.0.0.1".toList))
    (if port = [] ∨ port = "443".toList ∨ port = "443\n".toList then none
      else some port)

/-- The authority of the location of a plain request. -/
def redirectHost (env : RedirectEnv) : Text :=
  let allowed := server.allowlistedRedirectAuthority env.httpHost
  if allowed ≠ [] then allowed
  else
    match ownAddress env with
    | some (host, port) => redirectAuthority host port
    | none => "127.0.0.1".toList

/-- `_https_redirect_location`. -/
def httpsRedirectLocation (env : RedirectEnv) : Text :=
  let path := env.scriptName.getD [] ++ env.pathInfo.getD "/".toList
  let query := env.queryString.getD []
  "https://".toList ++ server.redirectHost env ++
    safeRedirectTarget
      (some (path ++ if query = [] then [] else '?' :: query))

/-- A listening socket; its address is the text of one. -/
structure Daemon where
  sockhost : Option Text
  sockport : Option Text
  isAddress : ∀ host, sockhost = some host → host.all isAddressChar = true
  isPort : ∀ port, sockport = some port → port.all Char.isDigit = true

def Daemon.host (daemon : Daemon) : Text :=
  let host := daemon.sockhost.getD []
  if isTrue host then host else "127.0.0.1".toList

def Daemon.port (daemon : Daemon) : Option Text :=
  let port := daemon.sockport.getD []
  if !isTrue port || port = "443".toList then none else some port

/-- The capture of `\A[A-Z]+\s+(\S+)\s+HTTP/`. -/
def targetCapture (head : Text) : Option Text :=
  let behindMethod := head.dropWhile Char.isUpper
  let fromTarget := behindMethod.dropWhile isBlank
  let target := fromTarget.takeWhile fun char => !isBlank char
  let behindTarget := fromTarget.dropWhile fun char => !isBlank char
  if head.head?.any Char.isUpper ∧ behindMethod.head?.any isBlank ∧
      target ≠ [] ∧ behindTarget.head?.any isBlank ∧
      "HTTP/".toList.isPrefixOf (behindTarget.dropWhile isBlank) then
    some target
  else none

/-- `_request_target_from_head`. -/
def requestTargetFromHead (head : Text) : Text :=
  match targetCapture head with
  | some target => safeRedirectTarget (some target)
  | none => "/".toList

def isBlankOrTab (char : Char) : Bool :=
  decide (char = ' ' ∨ char = '\t')

/-- The capture of `^Host:[ \t]*([^\r\n]*)`, without its last blanks. -/
def hostCapture (head : Text) : Option Text :=
  ((head.splitOn '\n').find? fun line =>
      "host:".toList.isPrefixOf (lowercase line)).map fun line =>
    (((line.drop 5).dropWhile isBlankOrTab).takeWhile
      (· ≠ '\r')).rdropWhile isBlankOrTab

/-- `_request_host_from_head`. -/
def requestHostFromHead (head : Text) (daemon : Daemon) : Text :=
  let allowed :=
    ((hostCapture head).map fun host =>
      server.allowlistedRedirectAuthority (some host)).getD []
  if allowed ≠ [] then allowed
  else redirectAuthority daemon.host daemon.port

/-- The location of `_http_redirect_response`. -/
def httpRedirectLocation (head : Text) (daemon : Daemon) : Text :=
  let host := server.requestHostFromHead head daemon
  "https://".toList ++
    (if isTrue host then host else "127.0.0.1".toList) ++
    requestTargetFromHead head

end WebServer


/-- A host that a location may lead to, as it stands in an authority. -/
def WebServer.IsHomeHost (server : WebServer) (own : Option Text)
    (written : Text) : Prop :=
  ∃ host, written = writtenHost host ∧
    (WebServer.hostIsLoopbackLiteral host = true ∨
      host ∈ server.expectedSubjectAltNames ∨ some host = own)

/-- A location leads to an allowed host and ends no header. -/
def StaysHome (home : Text → Prop) (pageScheme location : Text) : Prop :=
  (UrlReference.destination pageScheme location = .own ∨
      ∃ written,
        UrlReference.destination pageScheme location = .host written ∧
          home written) ∧
    '\r' ∉ location ∧ '\n' ∉ location

variable {char : Char}

theorem isControlByte_of_isLeftOut
    (leftOut : UrlReference.isLeftOut char = true) :
    isControlByte char = true := by
  unfold UrlReference.isLeftOut at leftOut
  rcases of_decide_eq_true leftOut with rfl | rfl | rfl
  · decide
  · decide
  · decide

/-- A path that is safe behind an authority, and for itself. -/
structure IsPathReference (target : Text) : Prop where
  rooted : target.head? = some '/'
  single : target.tail.head?.any UrlReference.isSlash = false
  whole : ∀ char ∈ target, UrlReference.isLeftOut char = false

theorem isPathReference_root : IsPathReference "/".toList where
  rooted := rfl
  single := rfl
  whole := by
    intro char isIn
    obtain rfl := List.mem_singleton.mp isIn
    decide

theorem isPathReference_of_isLocalPath {target : Text}
    (isLocal : isLocalPath target = true) : IsPathReference target := by
  unfold isLocalPath at isLocal
  rw [Bool.and_eq_true, Bool.and_eq_true, Bool.not_eq_true',
    Bool.not_eq_true', decide_eq_true_eq, List.any_eq_false] at isLocal
  obtain ⟨⟨rooted, noAuthority⟩, plain⟩ := isLocal
  have plain (char : Char) (isIn : char ∈ target) :
      char ≠ '\\' ∧ isControlByte char = false := by
    have neither := plain char isIn
    rw [Bool.or_eq_true, not_or, decide_eq_true_eq,
      Bool.not_eq_true] at neither
    exact neither
  refine ⟨rooted, ?_, ?_⟩
  · cases target with
    | nil => rfl
    | cons first rest =>
      obtain rfl := Option.some.inj rooted
      cases rest with
      | nil => rfl
      | cons second rest =>
        rw [Bool.eq_false_iff]
        intro slash
        unfold UrlReference.isSlash at slash
        rcases of_decide_eq_true slash with rfl | rfl
        · cases noAuthority
        · exact (plain '\\' (by simp)).1 rfl
  · intro char isIn
    rw [Bool.eq_false_iff]
    intro leftOut
    have control := (plain char isIn).2
    rw [isControlByte_of_isLeftOut leftOut] at control
    cases control

namespace IsPathReference

variable {target : Text}

theorem eq_cons (isPath : IsPathReference target) :
    target = '/' :: target.tail :=
  (List.cons_head?_tail isPath.rooted).symm

theorem endsNoLine (isPath : IsPathReference target) :
    '\r' ∉ target ∧ '\n' ∉ target := by
  constructor
  · intro isIn
    exact absurd (isPath.whole _ isIn) (by decide)
  · intro isIn
    exact absurd (isPath.whole _ isIn) (by decide)

theorem staysHome (isPath : IsPathReference target)
    (home : Text → Prop) (pageScheme : Text) :
    StaysHome home pageScheme target := by
  refine ⟨Or.inl ?_, isPath.endsNoLine⟩
  have whole := isPath.whole
  rw [isPath.eq_cons] at whole ⊢
  exact UrlReference.destination_of_path isPath.single whole

end IsPathReference

theorem isPathReference_sanitizeRedirectTarget (target : Option Text) :
    IsPathReference (sanitizeRedirectTarget target) := by
  unfold sanitizeRedirectTarget
  dsimp only
  split
  · exact isPathReference_root
  · rename_i kept
    rw [not_or, not_or, Bool.not_eq_true, Bool.not_eq_false'] at kept
    exact isPathReference_of_isLocalPath kept.2.1

theorem isPathReference_safeRedirectTarget (target : Option Text) :
    IsPathReference (safeRedirectTarget target) := by
  unfold safeRedirectTarget
  dsimp only
  split
  · exact isPathReference_root
  · rename_i kept
    rw [not_or, Bool.not_eq_true, Bool.not_eq_false'] at kept
    exact isPathReference_of_isLocalPath kept.2

def isWrittenChar (char : Char) : Bool :=
  isHostChar char || decide (char = ':')

theorem isAlphanum_iff_toNat :
    char.isAlphanum = true ↔
      ((65 ≤ char.toNat ∧ char.toNat ≤ 90) ∨
        (97 ≤ char.toNat ∧ char.toNat ≤ 122)) ∨
        (48 ≤ char.toNat ∧ char.toNat ≤ 57) := by
  unfold Char.isAlphanum Char.isAlpha Char.isUpper Char.isLower Char.isDigit
  simp only [Bool.or_eq_true, Bool.and_eq_true, decide_eq_true_eq]
  rfl

theorem plain_of_isWrittenChar (written : isWrittenChar char = true) :
    UrlReference.endsAuthority char = false ∧ char ≠ '@' ∧
      UrlReference.isTrimmed char = false ∧ char ≠ '[' ∧ char ≠ ']' := by
  refine ⟨?_, ?_, ?_, ?_, ?_⟩
  · rw [Bool.eq_false_iff]
    intro ends
    rcases UrlReference.of_endsAuthority ends with rfl | rfl | rfl | rfl
    · exact absurd written (by decide)
    · exact absurd written (by decide)
    · exact absurd written (by decide)
    · exact absurd written (by decide)
  · rintro rfl
    exact absurd written (by decide)
  · unfold UrlReference.isTrimmed
    rw [decide_eq_false_iff_not]
    intro low
    unfold isWrittenChar isHostChar at written
    rw [Bool.or_eq_true, Bool.or_eq_true, isAlphanum_iff_toNat,
      decide_eq_true_eq, decide_eq_true_eq] at written
    rcases written with (letter | rfl | rfl | rfl) | rfl
    · omega
    · exact absurd low (by decide)
    · exact absurd low (by decide)
    · exact absurd low (by decide)
    · exact absurd low (by decide)
  · rintro rfl
    exact absurd written (by decide)
  · rintro rfl
    exact absurd written (by decide)

theorem isWrittenChar_of_isAddressChar
    (address : isAddressChar char = true) : isWrittenChar char = true := by
  unfold isAddressChar at address
  rw [Bool.or_eq_true, Bool.or_eq_true, Bool.or_eq_true, Bool.or_eq_true,
    decide_eq_true_eq, decide_eq_true_eq, decide_eq_true_eq,
    decide_eq_true_eq] at address
  have letter (alphanum : char.isAlphanum = true) :
      isWrittenChar char = true := by
    unfold isWrittenChar isHostChar
    rw [alphanum]
    rfl
  rcases address with (((digit | upper) | lower) | rfl) | rfl
  · exact letter (isAlphanum_iff_toNat.mpr
      (Or.inr (Char.isDigit_iff_toNat.mp digit)))
  · have low : 65 ≤ char.toNat := upper.1
    have high : char.toNat ≤ 70 := upper.2
    exact letter (isAlphanum_iff_toNat.mpr (by omega))
  · have low : 97 ≤ char.toNat := lower.1
    have high : char.toNat ≤ 102 := lower.2
    exact letter (isAlphanum_iff_toNat.mpr (by omega))
  · rfl
  · rfl

/-- `lc` of a capital is a letter. -/
theorem isLower_toLower (upper : char.isUpper = true) :
    char.toLower.isLower = true := by
  have range := of_decide_eq_true upper
  have low : 65 ≤ char.val.toNat := range.1
  have high : char.val.toNat ≤ 90 := range.2
  have code :
      (char.val + ('a'.val - 'A'.val)).toNat = char.val.toNat + 32 := by
    rw [UInt32.toNat_add]
    change (_ + 32) % 2 ^ 32 = _
    omega
  unfold Char.toLower Char.isLower
  rw [dif_pos range, Bool.and_eq_true, decide_eq_true_eq, decide_eq_true_eq]
  constructor
  · change 97 ≤ (char.val + ('a'.val - 'A'.val)).toNat
    omega
  · change (char.val + ('a'.val - 'A'.val)).toNat ≤ 122
    omega

theorem isWrittenChar_toLower (written : isWrittenChar char = true) :
    isWrittenChar char.toLower = true := by
  by_cases upper : char.isUpper = true
  · unfold isWrittenChar isHostChar Char.isAlphanum Char.isAlpha
    rw [isLower_toLower upper, Bool.or_true]
    rfl
  · have same : char.toLower = char := by
      unfold Char.toLower
      rw [dif_neg]
      intro range
      exact upper (decide_eq_true range)
    rw [same]
    exact written

structure IsWrittenName (host : Text) : Prop where
  nonempty : host ≠ []
  written : ∀ char ∈ host, isWrittenChar char = true

theorem IsWrittenName.isAuthority {host port : Text}
    (isName : IsWrittenName host) (isPort : UrlReference.IsPort port) :
    UrlReference.IsAuthority (writtenHost host) port := by
  unfold writtenHost
  split
  · refine UrlReference.isAuthority_of_brackets ?_ isPort
    intro char isIn
    exact plain_of_isWrittenChar (isName.written char isIn)
  · rename_i noColon
    refine UrlReference.isAuthority_of_plain isName.nonempty ?_ isPort
    intro char isIn
    obtain ⟨noMark, noAt, visible, noBrackets⟩ :=
      plain_of_isWrittenChar (isName.written char isIn)
    refine ⟨noMark, noAt, visible, ?_, noBrackets⟩
    rintro rfl
    exact noColon isIn

theorem isPort_writtenPort {port : Option Text}
    (digits : ∀ text, port = some text → text.all Char.isDigit = true) :
    UrlReference.IsPort (writtenPort port) := by
  cases port with
  | none => exact Or.inl rfl
  | some text => exact Or.inr ⟨text, rfl, digits text rfl⟩

variable {authority : Text}

theorem isWrittenName_bracketCaptures {captures : Text × Option Text}
    (captured : bracketCaptures authority = some captures) :
    IsWrittenName captures.1 := by
  unfold bracketCaptures at captured
  split at captured
  · rename_i rest
    dsimp only at captured
    split at captured
    · rename_i fits
      obtain ⟨port, -, rfl⟩ := Option.map_eq_some_iff.mp captured
      refine ⟨?_, ?_⟩
      · intro empty
        have long := fits.1
        rw [show rest.takeWhile isAddressChar = [] from empty] at long
        exact absurd long (by decide)
      · intro char isIn
        exact isWrittenChar_of_isAddressChar (List.mem_takeWhile_imp isIn)
    · cases captured
  · cases captured

theorem isWrittenName_nameCaptures {captures : Text × Option Text}
    (captured : nameCaptures authority = some captures) :
    IsWrittenName captures.1 := by
  unfold nameCaptures at captured
  dsimp only at captured
  split at captured
  · rename_i fits
    obtain ⟨port, -, rfl⟩ := Option.map_eq_some_iff.mp captured
    refine ⟨?_, ?_⟩
    · intro empty
      rw [show authority.takeWhile isHostChar = [] from empty] at fits
      exact absurd fits (by decide)
    · intro char isIn
      unfold isWrittenChar
      rw [List.mem_takeWhile_imp isIn]
      rfl
  · cases captured

theorem IsWrittenName.lowercase {host : Text}
    (isName : IsWrittenName host) : IsWrittenName (lowercase host) := by
  refine ⟨?_, ?_⟩
  · intro empty
    exact isName.nonempty (List.map_eq_nil_iff.mp empty)
  · intro char isIn
    obtain ⟨other, isOther, rfl⟩ := List.mem_map.mp isIn
    exact isWrittenChar_toLower (isName.written other isOther)

theorem of_splitRequestAuthority
    {authority portOverride : Option Text} {host : Text} {port : Option Text}
    (found :
      splitRequestAuthority authority portOverride = some (host, port)) :
    IsWrittenName host ∧ UrlReference.IsPort (writtenPort port) := by
  unfold splitRequestAuthority at found
  dsimp only at found
  split at found
  · cases found
  · obtain ⟨captures, captured, found⟩ := Option.bind_eq_some_iff.mp found
    split at found
    · rename_i usable
      obtain ⟨rfl, rfl⟩ := Prod.mk.inj (Option.some.inj found)
      have isName : IsWrittenName captures.1 := by
        rcases Option.or_eq_some_iff.mp captured with bracket | ⟨-, name⟩
        · exact isWrittenName_bracketCaptures bracket
        · exact isWrittenName_nameCaptures name
      refine ⟨isName.lowercase, isPort_writtenPort ?_⟩
      intro text isText
      rw [isText] at usable
      have usable : isUsablePort text = true := usable
      unfold isUsablePort isPortNumber at usable
      rw [Bool.and_eq_true, Bool.and_eq_true] at usable
      exact usable.1.2
    · cases found

/-- A location that is put together leads to its host. -/
theorem staysHome_of_authority
    {home : Text → Prop} {pageScheme host port target : Text}
    (isName : IsWrittenName host) (isPort : UrlReference.IsPort port)
    (isHome : home (writtenHost host)) (isPath : IsPathReference target) :
    StaysHome home pageScheme
      ("https://".toList ++ (writtenHost host ++ port) ++ target) := by
  have isAuthority := isName.isAuthority isPort
  have whole := isPath.whole
  have noLine (char : Char)
      (isIn :
        char ∈ "https://".toList ++ (writtenHost host ++ port) ++ target) :
      UrlReference.isLeftOut char = false := by
    rcases List.mem_append.mp isIn with inFront | inTarget
    · rcases List.mem_append.mp inFront with inScheme | inAuthority
      · have kept :
            "https://".toList.all
              (fun char => !UrlReference.isLeftOut char) = true := rfl
        simpa using List.all_eq_true.mp kept char inScheme
      · rw [Bool.eq_false_iff]
        intro leftOut
        have visible := (isAuthority.plain_append char inAuthority).2.2
        rw [UrlReference.isTrimmed_of_isLeftOut leftOut] at visible
        cases visible
    · exact whole char inTarget
  refine ⟨Or.inr ⟨writtenHost host, ?_, isHome⟩, ?_, ?_⟩
  · rw [isPath.eq_cons]
    refine UrlReference.destination_of_authority isAuthority ?_
    intro char isIn
    exact whole char (List.mem_of_mem_tail isIn)
  · intro isIn
    exact absurd (noLine _ isIn) (by decide)
  · intro isIn
    exact absurd (noLine _ isIn) (by decide)

variable {own : Option Text}

namespace WebServer

variable (server : WebServer)

/-- An authority of a home host and a port, as it stands in a location. -/
def IsHomeAuthority (own : Option Text) (authority : Text) : Prop :=
  ∃ host port, authority = writtenHost host ++ port ∧
    IsWrittenName host ∧ UrlReference.IsPort port ∧
    server.IsHomeHost own (writtenHost host)

theorem isHomeAuthority_loopback (own : Option Text) :
    server.IsHomeAuthority own "127.0.0.1".toList := by
  refine ⟨"127.0.0.1".toList, [], by decide, ⟨by decide, ?_⟩, Or.inl rfl,
    "127.0.0.1".toList, rfl, Or.inl (by decide)⟩
  exact List.all_eq_true.mp (by decide)

variable {server}

theorem isHomeAuthority_redirectAuthority {host : Text} {port : Option Text}
    (isName : IsWrittenName host)
    (isPort : UrlReference.IsPort (writtenPort port))
    (isHome : server.IsHomeHost own (writtenHost host)) :
    server.IsHomeAuthority own (redirectAuthority host port) := by
  refine ⟨host, writtenPort port, ?_, isName, isPort, isHome⟩
  exact if_neg isName.nonempty

/-- An authority of the client is used for a home host only. -/
theorem isHomeAuthority_allowlisted {authority : Option Text}
    (allowed : server.allowlistedRedirectAuthority authority ≠ []) :
    server.IsHomeAuthority own
      (server.allowlistedRedirectAuthority authority) := by
  unfold allowlistedRedirectAuthority at allowed ⊢
  cases split : splitRequestAuthority authority none with
  | none =>
    rw [split] at allowed
    exact absurd rfl allowed
  | some captures =>
    obtain ⟨host, port⟩ := captures
    obtain ⟨isName, isPort⟩ := of_splitRequestAuthority split
    rw [split] at allowed
    dsimp only at allowed ⊢
    by_cases isAllowed : server.redirectHostIsAllowed host = true
    · rw [if_pos isAllowed]
      refine isHomeAuthority_redirectAuthority isName isPort
        ⟨host, rfl, ?_⟩
      unfold redirectHostIsAllowed at isAllowed
      rcases (Bool.or_eq_true _ _).mp isAllowed with loopback | listed
      · exact Or.inl loopback
      · obtain ⟨name, isListed, same⟩ := List.any_eq_true.mp listed
        obtain rfl := of_decide_eq_true same
        exact Or.inr (Or.inl isListed)
    · rw [if_neg isAllowed] at allowed
      exact absurd rfl allowed

theorem isHomeAuthority_redirectHost (env : RedirectEnv) :
    server.IsHomeAuthority ((ownAddress env).map Prod.fst)
      (server.redirectHost env) := by
  unfold redirectHost
  dsimp only
  split
  · rename_i allowed
    exact isHomeAuthority_allowlisted allowed
  · cases address : ownAddress env with
    | none => exact server.isHomeAuthority_loopback none
    | some captures =>
      obtain ⟨host, port⟩ := captures
      obtain ⟨isName, isPort⟩ := of_splitRequestAuthority address
      exact isHomeAuthority_redirectAuthority isName isPort
        ⟨host, rfl, Or.inr (Or.inr rfl)⟩

theorem isWrittenName_daemon (daemon : Daemon) :
    IsWrittenName daemon.host := by
  unfold Daemon.host
  dsimp only
  cases bound : daemon.sockhost with
  | none =>
    refine ⟨by decide, ?_⟩
    exact List.all_eq_true.mp (by decide)
  | some address =>
    change IsWrittenName
      (if isTrue address then address else "127.0.0.1".toList)
    by_cases given : isTrue address = true
    · rw [if_pos given]
      refine ⟨?_, ?_⟩
      · rintro rfl
        cases given
      · intro char isIn
        exact isWrittenChar_of_isAddressChar
          (List.all_eq_true.mp (daemon.isAddress address bound) char isIn)
    · rw [if_neg given]
      refine ⟨by decide, ?_⟩
      exact List.all_eq_true.mp (by decide)

theorem isPort_daemon (daemon : Daemon) :
    UrlReference.IsPort (writtenPort daemon.port) := by
  refine isPort_writtenPort ?_
  intro text isText
  unfold Daemon.port at isText
  dsimp only at isText
  split at isText
  · cases isText
  · obtain rfl := Option.some.inj isText
    cases bound : daemon.sockport with
    | none => rfl
    | some port => exact daemon.isPort port bound

theorem isHomeAuthority_requestHostFromHead (head : Text) (daemon : Daemon) :
    server.IsHomeAuthority (some daemon.host)
      (server.requestHostFromHead head daemon) := by
  unfold requestHostFromHead
  dsimp only
  split
  · rename_i allowed
    cases captured : hostCapture head with
    | none =>
      rw [captured] at allowed
      exact absurd rfl allowed
    | some host =>
      rw [captured] at allowed
      exact isHomeAuthority_allowlisted allowed
  · exact isHomeAuthority_redirectAuthority (isWrittenName_daemon daemon)
      (isPort_daemon daemon) ⟨daemon.host, rfl, Or.inr (Or.inr rfl)⟩

theorem IsHomeAuthority.staysHome {pageScheme target : Text}
    (isHome : server.IsHomeAuthority own authority)
    (isPath : IsPathReference target) :
    StaysHome (server.IsHomeHost own) pageScheme
      ("https://".toList ++ authority ++ target) := by
  obtain ⟨host, port, rfl, isName, isPort, isHome⟩ := isHome
  exact staysHome_of_authority isName isPort isHome isPath

theorem isPathReference_requestTargetFromHead (head : Text) :
    IsPathReference (requestTargetFromHead head) := by
  unfold requestTargetFromHead
  split
  · exact isPathReference_safeRedirectTarget _
  · exact isPathReference_root

/--
No redirect leads a browser elsewhere: the one after a login stays on the
host of the page, and the other two lead to a loopback, to a name of the
certificate or to the address of the server.
-/
theorem staysHome_redirects (server : WebServer) (pageScheme : Text) :
    (∀ target : Option Text, StaysHome (fun _ => False) pageScheme
        (sanitizeRedirectTarget target)) ∧
    (∀ env : RedirectEnv,
      StaysHome (server.IsHomeHost ((ownAddress env).map Prod.fst))
        pageScheme (server.httpsRedirectLocation env)) ∧
    ∀ (head : Text) (daemon : Daemon),
      StaysHome (server.IsHomeHost (some daemon.host)) pageScheme
        (server.httpRedirectLocation head daemon) := by
  refine ⟨?_, ?_, ?_⟩
  · intro target
    exact (isPathReference_sanitizeRedirectTarget target).staysHome _ _
  · intro env
    exact (isHomeAuthority_redirectHost env).staysHome
      (isPathReference_safeRedirectTarget _)
  · intro head daemon
    have isPath := isPathReference_requestTargetFromHead head
    unfold httpRedirectLocation
    dsimp only
    split
    · exact (isHomeAuthority_requestHostFromHead head daemon).staysHome
        isPath
    · exact (server.isHomeAuthority_loopback _).staysHome isPath

example :
    httpRedirectLocation ⟨none, []⟩
        "GET /a HTTP/1.1\r\nHost: evil.com\r\n\r\n".toList
        ⟨some "10.0.0.1".toList, some "7890".toList,
          fun _ same => Option.some.inj same ▸ rfl,
          fun _ same => Option.some.inj same ▸ rfl⟩ =
      "https://10.0.0.1:7890/a".toList := by
  decide

end WebServer

end DeveloperDashboard.Web
