import DeveloperDashboard.Config.JsonValue
import DeveloperDashboard.Session.IsoTimestamp

namespace DeveloperDashboard.Session

open Library Perl Config

/-!
# The session store

A session is a JSON file named after its id.  `from_cookie` reads the first
one of the layers, and `sweep_expired` goes through the files of one root.
-/

/-- A file: what it decodes to, or the message of the decoder. -/
abbrev SessionFile :=
  Except Text JsonValue

/-- The files of a sessions directory by their names. -/
abbrev SessionRoot :=
  Entries Text SessionFile

def isSafeChar (char : Char) : Bool :=
  char.isAlphanum || char ∈ ['_', '.', '-']

/-- The substitution `s/[^A-Za-z0-9_.-]+/_/g`. -/
def safeText : Text → Text
  | [] => []
  | char :: rest =>
    if isSafeChar char then char :: safeText rest
    else
      match rest with
      | next :: _ =>
        if isSafeChar next then '_' :: safeText rest else safeText rest
      | [] => ['_']

def sessionFileName (sessionId : Text) : Text :=
  safeText sessionId ++ ".json".toList

/-- `get`: the first file of the layers. -/
def getSession (roots : List SessionRoot) (sessionId : Option Text) :
    Except Text (Option JsonValue) :=
  match sessionId with
  | none => .ok none
  | some [] => .ok none
  | some sessionId =>
    match roots.findSome? fun root =>
        root.lookup (sessionFileName sessionId) with
    | none => .ok none
    | some file => file.map some

/-- `delete`: the files of all layers. -/
def deleteSession (roots : List SessionRoot) (sessionId : Option Text) :
    List SessionRoot :=
  match sessionId with
  | none => roots
  | some [] => roots
  | some sessionId =>
    roots.map fun root => root.remove (sessionFileName sessionId)

/-- The parts of `split /;\s*/`. -/
def cookieParts (cookie : Text) : List Text :=
  match cookie.splitOn ';' with
  | [] => []
  | first :: rest => first :: rest.map trimStart

/-- The pairs of a Cookie header; a later one replaces an earlier one. -/
def cookiePairs (cookie : Text) : Entries Text Text :=
  (cookieParts cookie).foldl
    (fun pairs part =>
      let key := part.takeWhile (· ≠ '=')
      if key = [] then pairs
      else pairs.store key ((part.dropWhile (· ≠ '=')).drop 1))
    []

/-- Whether the address of a request is that of the session. -/
def addressMatches (remote : Option Text) (record : ConfigHash) : Bool :=
  match remote, recordText record "remote_addr" with
  | some remote, some address => address = [] || address = remote
  | _, _ => true

def validateSession (thisYear now : Nat) (remote : Option Text)
    (roots : List SessionRoot) (record : ConfigHash) :
    Except Text (Option ConfigHash × List SessionRoot) :=
  (iso8601ToEpoch thisYear .zero (recordText record "expires_at")).map
    fun (epoch : Int) =>
      if epoch ≤ now then
        (none, deleteSession roots (recordText record "session_id"))
      else if addressMatches remote record then (some record, roots)
      else (none, roots)

/--
`from_cookie`: the session, if there is a valid one, and the files after it.
What is not an object dies where its expiry is read.
-/
def fromCookie (thisYear now : Nat) (roots : List SessionRoot)
    (cookie remote : Option Text) :
    Except Text (Option ConfigHash × List SessionRoot) :=
  match cookie with
  | none => .ok (none, roots)
  | some [] => .ok (none, roots)
  | some cookie =>
    match getSession roots
        ((cookiePairs cookie).lookup "dashboard_session".toList) with
    | .error message => .error message
    | .ok none => .ok (none, roots)
    | .ok (some (.hash record)) =>
      validateSession thisYear now remote roots record
    | .ok (some value) =>
      if value.truthy then .error "Not a HASH reference".toList
      else .ok (none, roots)

/-- The pattern `\A.+\.json\z`. -/
def isSessionFileName (name : Text) : Bool :=
  ".json".toList.isSuffixOf name &&
    let stem := name.take (name.length - 5)
    stem ≠ [] && stem.all (· ≠ '\n')

def parseableRecord (name : Text) (file : SessionFile) : Option ConfigHash :=
  if isSessionFileName name then
    match file with
    | .ok (.hash record) => some record
    | _ => none
  else none

/-- `sweep_expired`: how many were removed, and the files that are left. -/
def sweepExpired (thisYear now : Nat) (dryRun : Bool) :
    SessionRoot → Except Text (Nat × SessionRoot)
  | [] => .ok (0, [])
  | (name, file) :: rest =>
    match parseableRecord name file with
    | none =>
      (sweepExpired thisYear now dryRun rest).map fun swept =>
        (swept.1, (name, file) :: swept.2)
    | some record =>
      match iso8601ToEpoch thisYear .zero
          (recordText record "expires_at") with
      | .error message => .error message
      | .ok epoch =>
        (sweepExpired thisYear now dryRun rest).map fun swept =>
          if (now : Int) < epoch then
            (swept.1, (name, file) :: swept.2)
          else if dryRun then (swept.1 + 1, (name, file) :: swept.2)
          else (swept.1 + 1, swept.2)

/-!
# Session expiry

`from_cookie` and `sweep_expired` read `expires_at` through
`_iso8601_to_epoch`, which leaves the ranges of the fields to `timegm`.  A
field out of range makes `timegm` die, and with it both of them.  A year below
1000 is taken for a later one, and an offset of a day or more for an offset.
-/

def expiresAfter (now : Nat) (record : ConfigHash) : Bool :=
  ((recordText record "expires_at").bind instantOf).any fun instant =>
    (now : Int) < instant

structure FailsClosed (thisYear now : Nat) (record : ConfigHash) :
    Prop where
  number :
    ∃ epoch : Int,
      iso8601ToEpoch thisYear .zero (recordText record "expires_at") =
        .ok epoch
  /-- `from_cookie` returns the session exactly when it is valid. -/
  cookie :
    ∀ (roots : List SessionRoot) (cookie : Text) (remote : Option Text),
      getSession roots
          ((cookiePairs cookie).lookup "dashboard_session".toList) =
        .ok (some (.hash record)) →
      ∃ files,
        fromCookie thisYear now roots (some cookie) remote =
          .ok
            (if expiresAfter now record && addressMatches remote record then
              some record
            else none, files)

/-- The file holds a parseable record that has expired. -/
def isExpired (now : Nat) (entry : Text × SessionFile) : Bool :=
  (parseableRecord entry.1 entry.2).any fun record =>
    !expiresAfter now record

/-- The sweep removes the expired records, and counts them in a dry run. -/
structure Sweeps (thisYear now : Nat) (root : SessionRoot) : Prop where
  removes :
    sweepExpired thisYear now false root =
      .ok (root.countP (isExpired now),
        root.filter fun entry => !isExpired now entry)
  preview :
    sweepExpired thisYear now true root =
      .ok (root.countP (isExpired now), root)

def ExpiryFailsClosed (thisYear now : Nat) (root : SessionRoot) : Prop :=
  (∀ entry ∈ root, ∀ record, parseableRecord entry.1 entry.2 = some record →
        FailsClosed thisYear now record) ∧
    Sweeps thisYear now root

/--
The date and the time of day of a timestamp exist in the year that `timegm`
takes.  It is written in ASCII digits with a year from 1000 on and an offset of
less than a day, or is past.
-/
def ReadsExpiry (thisYear now : Nat) (record : ConfigHash) : Prop :=
  ∀ text fields,
    recordText record "expires_at" = some text →
    matchTimestamp text = some fields →
      fields.InRange (fields.readYear thisYear) ∧
        ((fields.isAscii = true ∧ 1000 ≤ stringNumber fields.year ∧
            offsetInRange fields.offset = true) ∨
          fields.readEpoch thisYear ≤ now)

/-- The code takes the expiry of a record for what it is. -/
def ReadsAs (thisYear now : Nat) (record : ConfigHash) : Prop :=
  ∃ epoch : Int,
    iso8601ToEpoch thisYear .zero (recordText record "expires_at") =
        .ok epoch ∧
      ((now : Int) < epoch ↔ expiresAfter now record = true)

variable {record : ConfigHash}

theorem readsAs_of_no_match {thisYear now : Nat}
    (shape :
      (recordText record "expires_at").bind matchTimestamp = none) :
    ReadsAs thisYear now record := by
  refine ⟨0, ?_, ?_⟩
  · rw [iso8601ToEpoch, shape]
  · have never : expiresAfter now record = false := by
      unfold expiresAfter
      cases written : recordText record "expires_at" with
      | none => rfl
      | some text =>
        rw [written] at shape
        have other : matchTimestamp text = none := shape
        simp [instantOf, other]
    rw [never]
    simp only [Bool.false_eq_true, iff_false]
    omega

variable {fields : IsoFields}

theorem expiresAfter_of_match (now : Nat) {text : Text}
    (written : recordText record "expires_at" = some text)
    (shape : matchTimestamp text = some fields) :
    expiresAfter now record = true ↔
      (fields.isAscii = true ∧
          fields.InRange (stringNumber fields.year) ∧
            offsetInRange fields.offset = true) ∧
        (now : Int) <
          fields.seconds (stringNumber fields.year) -
            offsetSeconds fields.offset := by
  have unfolded :
      expiresAfter now record = true ↔
        ∃ instant, instantOf text = some instant ∧ (now : Int) < instant := by
    unfold expiresAfter
    rw [written]
    simp [Option.any_eq_true]
  rw [unfolded]
  constructor
  · rintro ⟨instant, same, later⟩
    obtain ⟨plain, rfl⟩ := (instantOf_of_match shape instant).mp same
    exact ⟨plain, later⟩
  · rintro ⟨plain, later⟩
    exact ⟨_, (instantOf_of_match shape _).mpr ⟨plain, rfl⟩, later⟩

theorem year_le_of_expiresAfter {now : Nat}
    (plain :
      fields.isAscii = true ∧
        fields.InRange (stringNumber fields.year) ∧
          offsetInRange fields.offset = true)
    (later :
      (now : Int) <
        fields.seconds (stringNumber fields.year) -
          offsetSeconds fields.offset) :
    1000 ≤ stringNumber fields.year := by
  by_contra early
  have past :=
    instant_neg_of_early plain.2.1 (Nat.lt_of_not_le early) plain.2.2
  omega

theorem readEpoch_of_le (late : 1000 ≤ stringNumber fields.year)
    (thisYear : Nat) :
    fields.readEpoch thisYear =
      fields.seconds (stringNumber fields.year) -
        offsetSeconds fields.offset := by
  rw [IsoFields.readEpoch, IsoFields.readYear, calendarYear_of_le late]

/-- The code takes the expiry for what it is exactly under the condition. -/
theorem readsAs_iff (thisYear now : Nat) (record : ConfigHash) :
    ReadsAs thisYear now record ↔ ReadsExpiry thisYear now record := by
  cases written : recordText record "expires_at" with
  | none =>
    refine iff_of_true (readsAs_of_no_match ?_) ?_
    · rw [written, Option.bind_none]
    · intro text fields some_
      rw [written] at some_
      contradiction
  | some text =>
    cases shape : matchTimestamp text with
    | none =>
      refine iff_of_true (readsAs_of_no_match ?_) ?_
      · rw [written, Option.bind_some, shape]
      · intro other fields same matched
        rw [written, Option.some.injEq] at same
        rw [← same, shape] at matched
        contradiction
    | some fields =>
      have parsed :
          iso8601ToEpoch thisYear .zero
              (recordText record "expires_at") =
            fieldsToEpoch thisYear fields := by
        rw [iso8601ToEpoch, written, Option.bind_some, shape]
      have expiry :=
        expiresAfter_of_match now written shape
      constructor
      · rintro ⟨epoch, read, agrees⟩ other matched same matching
        rw [written, Option.some.injEq] at same
        rw [← same, shape, Option.some.injEq] at matching
        rw [← matching]
        rw [parsed] at read
        by_cases range : fields.InRange (fields.readYear thisYear)
        · refine ⟨range, ?_⟩
          rw [fieldsToEpoch_of_inRange range, Except.ok.injEq] at read
          rcases Int.lt_or_le (now : Int) epoch with later | past
          · obtain ⟨plain, instant⟩ := expiry.mp (agrees.mp later)
            exact .inl
              ⟨plain.1, year_le_of_expiresAfter plain instant, plain.2.2⟩
          · rw [read]
            exact .inr past
        · obtain ⟨message, died⟩ := fieldsToEpoch_of_not_inRange range
          rw [died] at read
          contradiction
      · intro reads
        obtain ⟨range, kept⟩ := reads text fields written shape
        refine ⟨fields.readEpoch thisYear, ?_, ?_⟩
        · rw [parsed, fieldsToEpoch_of_inRange range]
        · rw [expiry]
          constructor
          · intro later
            rcases kept with ⟨ascii, late, offset⟩ | past
            · rw [IsoFields.readYear, calendarYear_of_le late] at range
              rw [readEpoch_of_le late] at later
              exact ⟨⟨ascii, range, offset⟩, later⟩
            · omega
          · rintro ⟨plain, later⟩
            rw [readEpoch_of_le (year_le_of_expiresAfter plain later)]
            exact later

theorem cookie_ne_nil
    {roots : List SessionRoot} {cookie : Text} {value : JsonValue}
    (found :
      getSession roots
          ((cookiePairs cookie).lookup "dashboard_session".toList) =
        .ok (some value)) :
    cookie ≠ [] := by
  rintro rfl
  have missing :
      (cookiePairs []).lookup "dashboard_session".toList = none := by
    decide
  rw [missing] at found
  simp [getSession] at found

theorem fromCookie_of_found
    {thisYear now : Nat} {roots : List SessionRoot} {cookie : Text}
    (found :
      getSession roots
          ((cookiePairs cookie).lookup "dashboard_session".toList) =
        .ok (some (.hash record)))
    (remote : Option Text) :
    fromCookie thisYear now roots (some cookie) remote =
      validateSession thisYear now remote roots record := by
  obtain ⟨first, rest, rfl⟩ :=
    List.exists_cons_of_ne_nil (cookie_ne_nil found)
  rw [fromCookie, found]
  rintro ⟨⟩

/-- What is promised of a record holds when its expiry is read. -/
theorem failsClosed_iff (thisYear now : Nat) (record : ConfigHash) :
    FailsClosed thisYear now record ↔ ReadsAs thisYear now record := by
  constructor
  · intro closed
    obtain ⟨epoch, read⟩ := closed.number
    refine ⟨epoch, read, ?_⟩
    have found :
        getSession [[("a.json".toList, .ok (.hash record))]]
            ((cookiePairs "dashboard_session=a".toList).lookup
              "dashboard_session".toList) =
          .ok (some (.hash record)) := by
      have named :
          (cookiePairs "dashboard_session=a".toList).lookup
              "dashboard_session".toList =
            some ['a'] := by
        decide
      rw [named]
      rfl
    obtain ⟨files, result⟩ := closed.cookie _ _ none found
    rw [fromCookie_of_found found, validateSession, read] at result
    have unbound : addressMatches none record = true := rfl
    rw [unbound, Bool.and_true] at result
    cases expiry : expiresAfter now record with
    | true =>
      rw [expiry] at result
      by_cases past : epoch ≤ now
      · simp [Except.map, past] at result
      · exact iff_of_true (by omega) rfl
    | false =>
      rw [expiry] at result
      by_cases past : epoch ≤ now
      · exact iff_of_false (by omega) Bool.false_ne_true
      · simp [Except.map, past] at result
  · rintro ⟨epoch, read, agrees⟩
    refine ⟨⟨epoch, read⟩, ?_⟩
    intro roots cookie remote found
    rw [fromCookie_of_found found, validateSession, read]
    simp only [Except.map, Except.ok.injEq]
    split
    · next past =>
        have never : expiresAfter now record = false := by
          rw [Bool.eq_false_iff]
          exact fun expiry => absurd (agrees.mpr expiry) (by omega)
        rw [never]
        exact ⟨_, rfl⟩
    · next later =>
        rw [agrees.mp (by omega), Bool.true_and]
        split
        · exact ⟨_, rfl⟩
        · exact ⟨_, rfl⟩

theorem sweepExpired_of_readsAs
    {thisYear now : Nat} (dryRun : Bool) {root : SessionRoot}
    (reads :
      ∀ entry ∈ root, ∀ record,
        parseableRecord entry.1 entry.2 = some record →
          ReadsAs thisYear now record) :
    sweepExpired thisYear now dryRun root =
      .ok (root.countP (isExpired now), if dryRun then root
        else root.filter fun entry => !isExpired now entry) := by
  induction root with
  | nil => cases dryRun <;> rfl
  | cons entry rest ih =>
    have swept :=
      ih fun other member =>
        reads other (List.mem_cons_of_mem _ member)
    obtain ⟨name, file⟩ := entry
    cases parsed : parseableRecord name file with
    | none =>
      have kept : isExpired now (name, file) = false := by
        rw [isExpired, parsed]
        rfl
      rw [sweepExpired, parsed]
      simp only [swept, Except.map, List.countP_cons, kept, List.filter_cons]
      cases dryRun <;> simp
    | some record =>
      obtain ⟨epoch, read, agrees⟩ :=
        reads (name, file) List.mem_cons_self record parsed
      have expired :
          isExpired now (name, file) =
            !decide ((now : Int) < epoch) := by
        rw [isExpired, parsed, Option.any_some]
        congr 1
        rw [Bool.eq_iff_iff, decide_eq_true_eq]
        exact agrees.symm
      rw [sweepExpired, parsed]
      simp only [read, swept, Except.map, List.countP_cons,
        List.filter_cons, expired]
      by_cases later : (now : Int) < epoch
      · cases dryRun <;> simp [later]
      · cases dryRun <;> simp [later]

/--
Session expiry fails closed exactly when every timestamp in the store has a
date and a time of day that exist and, unless it is past, a year from 1000 on,
ASCII digits and an offset of less than a day.
-/
theorem expiry_fails_closed_iff (thisYear now : Nat) (root : SessionRoot) :
    ExpiryFailsClosed thisYear now root ↔
      ∀ entry ∈ root, ∀ record,
        parseableRecord entry.1 entry.2 = some record →
          ReadsExpiry thisYear now record := by
  constructor
  · rintro ⟨closed, -⟩ entry member record parsed
    exact (readsAs_iff thisYear now record).mp
      ((failsClosed_iff thisYear now record).mp
        (closed entry member record parsed))
  · intro conditions
    have reads :
        ∀ entry ∈ root, ∀ record,
          parseableRecord entry.1 entry.2 = some record →
            ReadsAs thisYear now record :=
      fun entry member record parsed =>
        (readsAs_iff thisYear now record).mpr
          (conditions entry member record parsed)
    refine ⟨?_, ⟨?_, ?_⟩⟩
    · exact fun entry member record parsed =>
        (failsClosed_iff thisYear now record).mpr
          (reads entry member record parsed)
    · exact sweepExpired_of_readsAs false reads
    · exact sweepExpired_of_readsAs true reads

/-- A session that expires on the 30th of February. -/
def leapRecord : ConfigHash :=
  [("session_id", .string "a"),
    ("expires_at", .string "2026-02-30T00:00:00Z")]

/-- The parser, `from_cookie` and the sweep die of a date that does not exist. -/
theorem expiry_dies_of_date :
    iso8601ToEpoch 126 .zero (recordText leapRecord "expires_at") =
        .error "Day '30' out of range 1..28".toList ∧
      fromCookie 126 1800000000 [[("a.json".toList, .ok (.hash leapRecord))]]
          (some "dashboard_session=a".toList) none =
        .error "Day '30' out of range 1..28".toList ∧
      sweepExpired 126 1800000000 false
          [("a.json".toList, .ok (.hash leapRecord))] =
        .error "Day '30' out of range 1..28".toList ∧
      ¬ ExpiryFailsClosed 126 1800000000
          [("a.json".toList, .ok (.hash leapRecord))] := by
  have dies :
      iso8601ToEpoch 126 .zero (recordText leapRecord "expires_at") =
        .error "Day '30' out of range 1..28".toList := by
    decide
  refine ⟨dies, rfl, rfl, ?_⟩
  rintro ⟨closed, -⟩
  obtain ⟨epoch, read⟩ :=
    (closed _ List.mem_cons_self leapRecord rfl).number
  rw [dies] at read
  contradiction

end DeveloperDashboard.Session
