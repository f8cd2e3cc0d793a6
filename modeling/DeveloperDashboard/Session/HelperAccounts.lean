import DeveloperDashboard.Library.PercentCoding
import DeveloperDashboard.Session.SessionExpiry
import Mathlib.Data.List.Sort

namespace DeveloperDashboard.Session

open Library Perl Config

/-!
# Helper accounts

The record of a helper is a file named after the user, in the first of the
layers that are read.  A session is created in the first layer of its own
store, and nothing but the user name leads from it to the record.
-/

structure UserRecord where
  username : Text
  role : Text
  salt : Text
  /-- Empty in a record of the single-round hash. -/
  passwordScheme : Text
  iterations : Nat
  passwordHash : Text
  updatedAt : Text
deriving DecidableEq

abbrev UserRoot :=
  Entries Text UserRecord

structure PasswordHashes where
  sha256Hex : Text → Text
  pbkdf2Hex : Text → Text → Nat → Text

def padded (width number : Nat) : Text :=
  let digits := (Nat.repr number).toList
  List.replicate (width - digits.length) '0' ++ digits

/-- The year, the month and the day of a day after the first of 1970. -/
def dateOfDay (day : Nat) : Nat × Nat × Nat :=
  -- counted in the cycles of 400 years that begin on the first of March
  let sinceMarch := day + 719468
  let ofCycle := sinceMarch % 146097
  let years :=
    (ofCycle - ofCycle / 1460 + ofCycle / 36524 - ofCycle / 146096) / 365
  let ofYear := ofCycle - (365 * years + years / 4 - years / 100)
  let months := (5 * ofYear + 2) / 153
  let month := if months < 10 then months + 3 else months - 9
  (years + 400 * (sinceMarch / 146097) + (if month ≤ 2 then 1 else 0),
    month, ofYear - (153 * months + 2) / 5 + 1)

/-- `strftime '%Y-%m-%dT%H:%M:%SZ', gmtime $epoch`. -/
def utcTimestamp (epoch : Nat) : Text :=
  let date := dateOfDay (epoch / 86400)
  let second := epoch % 86400
  padded 4 date.1 ++ '-' :: padded 2 date.2.1 ++ '-' :: padded 2 date.2.2 ++
    'T' :: padded 2 (second / 3600) ++ ':' :: padded 2 (second / 60 % 60) ++
    ':' :: padded 2 (second % 60) ++ ['Z']

example : utcTimestamp 1709210096 = "2024-02-29T12:34:56Z".toList := by
  decide

def userFileName (username : Text) : Text :=
  safeText username ++ ".json".toList

/-- `get_user`: the first file of the layers. -/
def getUser (users : List UserRoot) (username : Text) : Option UserRecord :=
  users.findSome? fun root => root.lookup (userFileName username)

def userNames (users : List UserRoot) : List Text :=
  (users.reverse.flatMap fun root =>
    root.filterMap fun entry =>
      if ".json".toList.isSuffixOf entry.1 then
        some (entry.1.take (entry.1.length - 5))
      else none).dedup

/-- `list_users`. -/
def listUsers (users : List UserRoot) : List UserRecord :=
  ((userNames users).filterMap (getUser users)).insertionSort
    fun one other => one.username ≤ other.username

/-- The pattern `\A[A-Za-z0-9_.-]{1,64}\z`. -/
def isUsername (username : Text) : Bool :=
  decide (1 ≤ username.length ∧ username.length ≤ 64) &&
    username.all isSafeChar

def pbkdf2Iterations : Nat :=
  210000

def pbkdf2Scheme : Text :=
  "pbkdf2-hmac-sha256".toList

/-- The file of a root is replaced, or there is a new one. -/
def storeFirst {Value : Type} (name : Text) (value : Value) :
    List (Entries Text Value) → List (Entries Text Value)
  | [] => []
  | root :: rest => root.store name value :: rest

/-- What `add_user` is called with; the salt comes from the system. -/
structure UserArgs where
  username : Text
  password : Text
  role : Text
  salt : Text

/-- The record that `add_user` writes. -/
def UserArgs.record (args : UserArgs) (hashes : PasswordHashes) (now : Nat) :
    UserRecord where
  username := args.username
  role := if isTrue args.role then args.role else "helper".toList
  salt := args.salt
  passwordScheme := pbkdf2Scheme
  iterations := pbkdf2Iterations
  passwordHash := hashes.pbkdf2Hex args.password args.salt pbkdf2Iterations
  updatedAt := utcTimestamp now

/-- `add_user`. -/
def addUser (hashes : PasswordHashes) (now : Nat) (args : UserArgs)
    (users : List UserRoot) : Except Text (List UserRoot) :=
  if !isTrue args.username then .error "Missing username".toList
  else if !isTrue args.password then .error "Missing password".toList
  else if !isUsername args.username then
    .error "Username contains unsupported characters".toList
  else if args.password.length < 8 then
    .error "Password must be at least 8 characters long".toList
  else
    .ok (storeFirst (userFileName args.username) (args.record hashes now)
      users)

/-- `_expected_password_hash`. -/
def expectedPasswordHash (hashes : PasswordHashes) (user : UserRecord)
    (username password : Text) : Text :=
  if user.passwordScheme = pbkdf2Scheme then
    hashes.pbkdf2Hex password user.salt
      (if user.iterations = 0 then pbkdf2Iterations else user.iterations)
  else hashes.sha256Hex (user.salt ++ ':' :: username ++ ':' :: password)

/-- `verify_user`. -/
def verifyUser (hashes : PasswordHashes) (users : List UserRoot)
    (username password : Text) : Option UserRecord :=
  if !isTrue username || !isTrue password then none
  else
    (getUser users username).filter fun user =>
      decide
        (expectedPasswordHash hashes user username password =
          user.passwordHash)

/-- `remove_user`: the files of all layers. -/
def removeUser (username : Text) (users : List UserRoot) :
    List UserRoot :=
  users.map fun root => root.remove (userFileName username)

def isSessionId (sessionId : Text) : Bool :=
  decide (sessionId.length = 64) &&
    sessionId.all fun char =>
      char.isDigit || decide ('a' ≤ char ∧ char ≤ 'f')

def sessionSeconds : Nat :=
  43200

def sessionRecord (sessionId : Text) (user : UserRecord)
    (remoteAddr : Option Text) (now : Nat) : ConfigHash :=
  [("session_id", .string (String.ofList sessionId)),
    ("username", .string (String.ofList user.username)),
    ("role", .string (String.ofList
        (if isTrue user.role then user.role else "helper".toList))),
    ("remote_addr", .string (String.ofList (orEmpty (remoteAddr.getD [])))),
    ("created_at", .string (String.ofList (utcTimestamp now))),
    ("expires_at",
      .string (String.ofList (utcTimestamp (now + sessionSeconds)))),
    ("updated_at", .string (String.ofList (utcTimestamp now)))]

/-- `create`; a user without a name makes it die. -/
def createSession (sessionId : Text) (user : UserRecord)
    (remoteAddr : Option Text) (now : Nat) (sessions : List SessionRoot) :
    Except Text (List SessionRoot) :=
  if !isTrue user.username then .error "Missing username".toList
  else
    .ok (storeFirst (sessionFileName sessionId)
      (.ok (.hash (sessionRecord sessionId user remoteAddr now))) sessions)

theorem mem_storeFirst {Value : Type} {name : Text} {value : Value}
    {roots : List (Entries Text Value)} {root : Entries Text Value}
    {entry : Text × Value}
    (isRoot : root ∈ storeFirst name value roots) (isIn : entry ∈ root) :
    entry = (name, value) ∨ ∃ before ∈ roots, entry ∈ before := by
  cases roots with
  | nil => cases isRoot
  | cons first rest =>
    rcases List.mem_cons.mp isRoot with rfl | isLater
    · rcases Entries.mem_store isIn with isOld | isNew
      · exact Or.inr ⟨first, List.mem_cons_self, isOld⟩
      · exact Or.inl isNew
    · exact Or.inr ⟨root, List.mem_cons_of_mem _ isLater, isIn⟩

variable {users : List UserRoot} {username : Text}

theorem isSome_getUser_storeFirst (name : Text)
    (record : UserRecord) (given : (getUser users username).isSome = true) :
    (getUser (storeFirst name record users) username).isSome = true := by
  unfold getUser at given ⊢
  rw [List.findSome?_isSome_iff] at given ⊢
  obtain ⟨root, isRoot, found⟩ := given
  cases users with
  | nil => cases isRoot
  | cons first rest =>
    rcases List.mem_cons.mp isRoot with rfl | isLater
    · refine ⟨root.store name record, List.mem_cons_self, ?_⟩
      by_cases same : name = userFileName username
      · rw [same, Entries.lookup_store_self]
        rfl
      · rw [Entries.lookup_store_of_ne _ same]
        exact found
    · exact ⟨root, List.mem_cons_of_mem _ isLater, found⟩

theorem getUser_removeUser_of_ne {other : Text}
    (different : userFileName other ≠ userFileName username)
    (users : List UserRoot) :
    getUser (removeUser username users) other = getUser users other := by
  unfold getUser removeUser
  rw [List.findSome?_map]
  refine congrArg (fun read => List.findSome? read users) ?_
  funext root
  exact Entries.lookup_remove_of_ne root different.symm

theorem getUser_congr
    {one other : Text} (same : userFileName one = userFileName other)
    (users : List UserRoot) :
    getUser users one = getUser users other := by
  unfold getUser
  rw [same]

theorem mem_of_getUser {record : UserRecord}
    (found : getUser users username = some record) :
    ∃ root ∈ users, (userFileName username, record) ∈ root := by
  obtain ⟨root, isRoot, found⟩ := List.exists_of_findSome?_eq_some found
  exact ⟨root, isRoot, Entries.mem_of_lookup found⟩

theorem getUser_of_verifyUser {hashes : PasswordHashes}
    {password : Text} {user : UserRecord}
    (verified : verifyUser hashes users username password = some user) :
    getUser users username = some user := by
  unfold verifyUser at verified
  split at verified
  · cases verified
  · exact (Option.filter_eq_some_iff.mp verified).1

variable {roots : List SessionRoot}

theorem of_mem_deleteSession {sessionId : Option Text}
    {root : SessionRoot} {entry : Text × SessionFile}
    (isRoot : root ∈ deleteSession roots sessionId) (isIn : entry ∈ root) :
    (∃ before ∈ roots, entry ∈ before) ∧
      ∀ text, sessionId = some text → text ≠ [] →
        entry.1 ≠ sessionFileName text := by
  unfold deleteSession at isRoot
  split at isRoot
  · refine ⟨⟨root, isRoot, isIn⟩, ?_⟩
    intro text same
    cases same
  · refine ⟨⟨root, isRoot, isIn⟩, ?_⟩
    rintro text same nonempty
    exact absurd (Option.some.inj same).symm nonempty
  · next text =>
      obtain ⟨before, isBefore, rfl⟩ := List.mem_map.mp isRoot
      obtain ⟨isOld, other⟩ := List.mem_filter.mp isIn
      refine ⟨⟨before, isBefore, isOld⟩, ?_⟩
      intro other same _
      obtain rfl := Option.some.inj same
      exact of_decide_eq_true ‹_›

/-- A session that `from_cookie` accepts, as it stands in the stores. -/
structure IsAccepted (thisYear now : Nat) (roots : List SessionRoot)
    (cookie : Option Text) (record : ConfigHash) : Prop where
  stored :
    ∃ text sessionId,
      cookie = some text ∧
        (cookiePairs text).lookup "dashboard_session".toList =
          some sessionId ∧
        ∃ root ∈ roots,
          (sessionFileName sessionId, .ok (.hash record)) ∈ root
  unexpired :
    ∃ epoch : Int,
      iso8601ToEpoch thisYear .zero (recordText record "expires_at") =
          .ok epoch ∧
        (now : Int) < epoch

theorem of_getSession {sessionId : Option Text} {value : JsonValue}
    (found : getSession roots sessionId = .ok (some value)) :
    ∃ text, sessionId = some text ∧
      ∃ root ∈ roots, (sessionFileName text, .ok value) ∈ root := by
  unfold getSession at found
  split at found
  · cases found
  · cases found
  · next text _ =>
      split at found
      · cases found
      · next file isFile =>
          obtain ⟨root, isRoot, read⟩ :=
            List.exists_of_findSome?_eq_some isFile
          cases file with
          | error message => cases found
          | ok other =>
            obtain rfl := Option.some.inj (Except.ok.inj found)
            exact ⟨text, rfl, root, isRoot, Entries.mem_of_lookup read⟩

/-- What `validateSession` lets through, and what is left. -/
theorem of_validateSession {thisYear now : Nat} {remote : Option Text}
    {left : List SessionRoot} {record : ConfigHash}
    {session : Option ConfigHash}
    (validated :
      validateSession thisYear now remote roots record =
        .ok (session, left)) :
    (session = none ∧
        (left = roots ∨
          left = deleteSession roots (recordText record "session_id"))) ∨
      (session = some record ∧ left = roots ∧
        ∃ epoch : Int,
          iso8601ToEpoch thisYear .zero (recordText record "expires_at") =
              .ok epoch ∧
            (now : Int) < epoch) := by
  unfold validateSession at validated
  cases read :
      iso8601ToEpoch thisYear .zero (recordText record "expires_at") with
  | error message =>
    rw [read] at validated
    cases validated
  | ok epoch =>
    rw [read] at validated
    have validated := Except.ok.inj validated
    dsimp only at validated
    split at validated
    · obtain ⟨rfl, rfl⟩ := Prod.mk.inj validated
      exact Or.inl ⟨rfl, Or.inr rfl⟩
    · next later =>
        split at validated
        · obtain ⟨rfl, rfl⟩ := Prod.mk.inj validated
          exact Or.inr ⟨rfl, rfl, epoch, rfl, by omega⟩
        · obtain ⟨rfl, rfl⟩ := Prod.mk.inj validated
          exact Or.inl ⟨rfl, Or.inl rfl⟩

/-- What `from_cookie` has found, and what is left. -/
theorem of_fromCookie {thisYear now : Nat} {left : List SessionRoot}
    {cookie remote : Option Text} {session : Option ConfigHash}
    (found :
      fromCookie thisYear now roots cookie remote = .ok (session, left)) :
    (session = none ∧
        (left = roots ∨ ∃ sessionId, left = deleteSession roots sessionId)) ∨
      ∃ record, session = some record ∧ left = roots ∧
        IsAccepted thisYear now roots cookie record := by
  have nothing
      (same :
        (Except.ok (none, roots) :
          Except Text (Option ConfigHash × List SessionRoot)) =
            .ok (session, left)) :
      session = none ∧
        (left = roots ∨ ∃ sessionId, left = deleteSession roots sessionId) := by
    obtain ⟨rfl, rfl⟩ := Prod.mk.inj (Except.ok.inj same)
    exact ⟨rfl, Or.inl rfl⟩
  unfold fromCookie at found
  split at found
  · exact Or.inl (nothing found)
  · exact Or.inl (nothing found)
  · next text _ =>
      split at found
      · cases found
      · exact Or.inl (nothing found)
      · next record read =>
          rcases of_validateSession found with
            ⟨rfl, rfl | rfl⟩ | ⟨rfl, rfl, unexpired⟩
          · exact Or.inl ⟨rfl, Or.inl rfl⟩
          · exact Or.inl ⟨rfl, Or.inr ⟨_, rfl⟩⟩
          · obtain ⟨sessionId, named, stored⟩ := of_getSession read
            exact Or.inr ⟨record, rfl, rfl,
              ⟨text, sessionId, rfl, named, stored⟩, unexpired⟩
      · split at found
        · cases found
        · exact Or.inl (nothing found)

end DeveloperDashboard.Session
