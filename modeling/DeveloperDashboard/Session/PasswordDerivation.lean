import DeveloperDashboard.Perl.Encoding
import DeveloperDashboard.Perl.Number
import DeveloperDashboard.Session.HelperAccounts

namespace DeveloperDashboard.Session.PasswordDerivation

open Library Perl

/-!
# Deriving passwords

`_pbkdf2_hmac_sha256_hex` leaves the work to OpenSSL where the extension has
it and takes the input, and runs the rounds with `Digest::SHA` otherwise.
Hosts with different backends share the records of the users.
-/

/-- HMAC-SHA256 and SHA-256 of bytes; the key of the first comes last. -/
structure Digests where
  hmac : Bytes → Bytes → Bytes
  sha256 : Bytes → Bytes

variable (digests : Digests)

/-- The operator `^` on byte strings of one length. -/
def xorBytes (left right : Bytes) : Bytes :=
  List.zipWith (· ^^^ ·) left right

/-- `unpack 'H*'` -/
def hexText (bytes : Bytes) : Text :=
  bytes.flatMap fun byte =>
    [Nat.digitChar (byte.toNat / 16), Nat.digitChar (byte.toNat % 16)]

/-- The digests of the first block, each of the one before it. -/
def chain (password salt : Bytes) : Nat → Bytes
  | 0 => digests.hmac (salt ++ [0, 0, 0, 1]) password
  | turns + 1 => digests.hmac (chain password salt turns) password

/-- The first block of PBKDF2, of so many iterations after the first. -/
def firstBlock (password salt : Bytes) : Nat → Bytes
  | 0 => chain digests password salt 0
  | turns + 1 =>
    xorBytes (firstBlock password salt turns)
      (chain digests password salt (turns + 1))

def turns (iterations : Text) : Nat :=
  ((textNumber iterations).floor - 1).toNat

/-- The greatest `int` of C. -/
def intMax : Nat :=
  2147483647

/-- Whether `derive_sha256` takes the iterations. -/
def isCount (iterations : Text) : Bool :=
  !iterations.isEmpty && iterations.all isDigit &&
    decide (1 ≤ textNumber iterations) &&
    decide (textNumber iterations ≤ 2147483647)

/-- `derive_sha256`, on a host with or without the backend. -/
def deriveSha256 (native : Bool) (password salt iterations : Text) :
    Except Text (Option Bytes) :=
  if !isCount iterations then .ok none
  else
    match narrowBytes? password, narrowBytes? salt with
    | some passwordBytes, some saltBytes =>
      if !native then .ok none
      else if intMax < passwordBytes.length ∨ intMax < saltBytes.length then
        .error "PBKDF2 password or salt is too large".toList
      else
        .ok (some (firstBlock digests passwordBytes saltBytes
          (turns iterations)))
    | _, _ => .ok none

/-- One turn of the loop over the digest and the result. -/
def nextRound (password : Bytes) (state : Bytes × Bytes) : Bytes × Bytes :=
  let digest := digests.hmac state.1 password
  (digest, xorBytes state.2 digest)

/-- The loop with `Digest::SHA`. -/
def digestShaBlock (password salt : Bytes) (iterations : Text) :
    Except Text Bytes :=
  let first := digests.hmac (salt ++ [0, 0, 0, 1]) password
  if 9223372036854775807 < textNumber iterations then
    .error "Range iterator outside integer range".toList
  else
    .ok ((List.range (turns iterations)).foldl
      (fun state _ => nextRound digests password state) (first, first)).2

/-- What `Digest::SHA` says of a character beyond a byte. -/
def wideCharacter : Text :=
  "Wide character in subroutine entry".toList

def digestShaHex (password salt iterations : Text) : Except Text Text :=
  match narrowBytes? password, narrowBytes? salt with
  | some passwordBytes, some saltBytes =>
    (digestShaBlock digests passwordBytes saltBytes iterations).map hexText
  | _, _ => .error wideCharacter

/-- `_pbkdf2_hmac_sha256_hex` -/
def pbkdf2HmacSha256Hex (native : Bool) (password salt iterations : Text) :
    Except Text Text :=
  match deriveSha256 digests native password salt iterations with
  | .error message => .error message
  | .ok (some digest) => .ok (hexText digest)
  | .ok none => digestShaHex digests password salt iterations

/-- What the record of a user says about the password. -/
structure StoredUser where
  salt : Text
  passwordScheme : Text
  iterations : Text
  passwordHash : Text
  deriving DecidableEq

abbrev Users :=
  Entries Text StoredUser

def defaultIterations : Text :=
  "210000".toList

/-- A password that is not too large for OpenSSL. -/
abbrev Password :=
  { text : Text // text.length ≤ intMax }

/-- The arguments of `add_user`, and the bytes from the system. -/
structure AddCall where
  native : Bool
  username : Text
  password : Password
  random : Bytes
  isSalt : random.length = 32

/-- `add_user`, as far as the password goes. -/
def addUser (call : AddCall) (users : Users) : Except Text Users :=
  if !isTrue call.username then .error "Missing username".toList
  else if !isTrue call.password.1 then .error "Missing password".toList
  else if !isUsername call.username then
    .error "Username contains unsupported characters".toList
  else if call.password.1.length < 8 then
    .error "Password must be at least 8 characters long".toList
  else
    (pbkdf2HmacSha256Hex digests call.native call.password.1
      (hexText call.random) defaultIterations).map fun hash =>
        users.store (userFileName call.username)
          ⟨hexText call.random, pbkdf2Scheme, defaultIterations, hash⟩

/-- `_expected_password_hash` -/
def expectedPasswordHash (native : Bool) (user : StoredUser)
    (username password : Text) : Except Text Text :=
  if user.passwordScheme = pbkdf2Scheme then
    pbkdf2HmacSha256Hex digests native password user.salt
      (if isTrue user.iterations then user.iterations else defaultIterations)
  else
    match narrowBytes? (user.salt ++ ':' :: username ++ ':' :: password) with
    | some bytes => .ok (hexText (digests.sha256 bytes))
    | none => .error wideCharacter

/-- `$ABSENT_USER_SALT` -/
def absentUserSalt : Text :=
  "dd783-absent-user-decoy-salt".toList

/-- `verify_user` -/
def verifyUser (native : Bool) (users : Users) (username password : Text) :
    Except Text (Option StoredUser) :=
  if !isTrue username || !isTrue password then .ok none
  else
    match users.lookup (userFileName username) with
    | none =>
      (pbkdf2HmacSha256Hex digests native password absentUserSalt
        defaultIterations).map fun _ => none
    | some user =>
      (expectedPasswordHash digests native user username password).map
        fun expected =>
          if expected = user.passwordHash then some user else none

inductive Call where
  | add (call : AddCall)
  | verify (native : Bool) (username password : Text)

/-- The records, and the last call for each that has set a password. -/
structure History where
  users : Users
  lastAdd : Text → Option AddCall

def History.next (history : History) : Call → History
  | .add call =>
    match addUser digests call history.users with
    | .ok users =>
      { users := users
        lastAdd := Function.update history.lastAdd
          (userFileName call.username) (some call) }
    | .error _ => history
  | .verify .. => history

/-- The history of some calls, on hosts that begin without users. -/
def historyOf (calls : List Call) : History :=
  calls.foldl (History.next digests) ⟨[], fun _ => none⟩

structure IsPortable : Prop where
  same : ∀ password salt iterations : Text,
    password.length ≤ intMax → salt.length ≤ intMax →
      pbkdf2HmacSha256Hex digests true password salt iterations =
        pbkdf2HmacSha256Hex digests false password salt iterations
  block : ∀ native (password salt iterations : Text) passwordBytes saltBytes,
    password.length ≤ intMax → salt.length ≤ intMax →
      narrowBytes? password = some passwordBytes →
        narrowBytes? salt = some saltBytes → isCount iterations = true →
          pbkdf2HmacSha256Hex digests native password salt iterations =
            .ok (hexText (firstBlock digests passwordBytes saltBytes
              (turns iterations)))
  login : ∀ calls native call,
    (historyOf digests calls).lastAdd (userFileName call.username) =
        some call →
      ∃ user, verifyUser digests native (historyOf digests calls).users
        call.username call.password.1 = .ok (some user)
  dies : ∀ calls native username (password : Password),
    (∃ message, verifyUser digests native (historyOf digests calls).users
        username password.1 = .error message) ↔
      isTrue username = true ∧ isTrue password.1 = true ∧
        narrowBytes? password.1 = none

variable {digests} {native : Bool} {password salt iterations : Text}
  {passwordBytes saltBytes : Bytes}

variable (digests) in
theorem foldl_nextRound (password salt : Bytes) (count : Nat) :
    (List.range count).foldl (fun state _ => nextRound digests password state)
        (chain digests password salt 0, chain digests password salt 0) =
      (chain digests password salt count,
        firstBlock digests password salt count) := by
  induction count with
  | zero => rfl
  | succ count ih =>
    rw [List.range_succ, List.foldl_append, ih]
    rfl

theorem digestShaBlock_of_isCount (counts : isCount iterations = true) :
    digestShaBlock digests passwordBytes saltBytes iterations =
      .ok (firstBlock digests passwordBytes saltBytes (turns iterations)) := by
  have small : textNumber iterations ≤ 2147483647 :=
    of_decide_eq_true (Bool.and_eq_true_iff.mp counts).2
  have inRange : ¬ 9223372036854775807 < textNumber iterations :=
    Rat.not_lt.mpr (Rat.le_trans small (by decide))
  have rounds := foldl_nextRound digests passwordBytes saltBytes
    (turns iterations)
  exact (if_neg inRange).trans (congrArg (fun state : Bytes × Bytes =>
    (Except.ok state.2 : Except Text Bytes)) rounds)

theorem length_of_narrowBytes? (narrow : narrowBytes? password =
    some passwordBytes) : passwordBytes.length = password.length := by
  unfold narrowBytes? at narrow
  split at narrow
  · obtain rfl := Option.some.inj narrow
    exact List.length_map _
  · cases narrow

/-- The backend decides nothing. -/
theorem pbkdf2HmacSha256Hex_eq (native : Bool) (iterations : Text)
    (fits : password.length ≤ intMax) (saltFits : salt.length ≤ intMax) :
    pbkdf2HmacSha256Hex digests native password salt iterations =
      digestShaHex digests password salt iterations := by
  unfold pbkdf2HmacSha256Hex deriveSha256
  by_cases counts : isCount iterations = true
  · rw [if_neg (by simp [counts])]
    cases isPassword : narrowBytes? password with
    | none => rfl
    | some passwordBytes =>
      cases isSalt : narrowBytes? salt with
      | none => rfl
      | some saltBytes =>
        cases native with
        | false => rfl
        | true =>
          have small : ¬ (intMax < passwordBytes.length ∨
              intMax < saltBytes.length) := by
            rw [length_of_narrowBytes? isPassword,
              length_of_narrowBytes? isSalt]
            omega
          simp only [Bool.not_true, Bool.false_eq_true, if_false, small]
          rw [digestShaHex, isPassword, isSalt]
          exact (congrArg (Except.map hexText)
            (digestShaBlock_of_isCount counts)).symm
  · rw [if_pos (by simp [counts])]

theorem digestShaHex_of_narrow (isPassword : narrowBytes? password =
      some passwordBytes) (isSalt : narrowBytes? salt = some saltBytes)
    (counts : isCount iterations = true) :
    digestShaHex digests password salt iterations =
      .ok (hexText (firstBlock digests passwordBytes saltBytes
        (turns iterations))) := by
  rw [digestShaHex, isPassword, isSalt]
  exact congrArg (Except.map hexText) (digestShaBlock_of_isCount counts)

theorem isCount_defaultIterations : isCount defaultIterations = true := by
  decide +kernel

theorem length_hexText (bytes : Bytes) :
    (hexText bytes).length = 2 * bytes.length := by
  induction bytes with
  | nil => rfl
  | cons byte rest ih =>
    rw [List.length_cons, Nat.mul_succ, ← ih]
    rfl

theorem exists_narrowBytes?_hexText (bytes : Bytes) :
    ∃ narrow, narrowBytes? (hexText bytes) = some narrow := by
  have digits : ∀ digit < 16, isNarrow (Nat.digitChar digit) = true := by
    decide
  refine ⟨_, if_pos (List.all_eq_true.mpr fun char member => ?_)⟩
  obtain ⟨byte, -, isDigit⟩ := List.mem_flatMap.mp member
  have small := byte.toNat_lt
  rcases List.mem_pair.mp isDigit with rfl | rfl
  · exact digits _ (by omega)
  · exact digits _ (by omega)

theorem pbkdf2HmacSha256Hex_default (native : Bool) {password : Password}
    (isPassword : narrowBytes? password.1 = some passwordBytes)
    (saltFits : salt.length ≤ intMax)
    (isSalt : narrowBytes? salt = some saltBytes) :
    pbkdf2HmacSha256Hex digests native password.1 salt defaultIterations =
      .ok (hexText (firstBlock digests passwordBytes saltBytes
        (turns defaultIterations))) := by
  rw [pbkdf2HmacSha256Hex_eq native _ password.2 saltFits]
  exact digestShaHex_of_narrow isPassword isSalt isCount_defaultIterations

theorem pbkdf2HmacSha256Hex_wide (native : Bool) {password : Password}
    (wide : narrowBytes? password.1 = none) (saltFits : salt.length ≤ intMax) :
    pbkdf2HmacSha256Hex digests native password.1 salt iterations =
      .error wideCharacter := by
  rw [pbkdf2HmacSha256Hex_eq native _ password.2 saltFits, digestShaHex, wide]

def IsRecordOf (digests : Digests) (call : AddCall) (user : StoredUser) :
    Prop :=
  isTrue call.username = true ∧ isTrue call.password.1 = true ∧
    ∃ passwordBytes saltBytes,
      narrowBytes? call.password.1 = some passwordBytes ∧
        narrowBytes? (hexText call.random) = some saltBytes ∧
        user = ⟨hexText call.random, pbkdf2Scheme, defaultIterations,
          hexText (firstBlock digests passwordBytes saltBytes
            (turns defaultIterations))⟩

def History.IsSound (digests : Digests) (history : History) : Prop :=
  ∀ file, (history.users.lookup file = none ∧ history.lastAdd file = none) ∨
    ∃ call user, history.users.lookup file = some user ∧
      history.lastAdd file = some call ∧ IsRecordOf digests call user

theorem saltFits (call : AddCall) :
    (hexText call.random).length ≤ intMax := by
  rw [length_hexText, call.isSalt]
  decide

theorem addUser_eq_ok {call : AddCall} {users after : Users}
    (added : addUser digests call users = .ok after) :
    ∃ user, IsRecordOf digests call user ∧
      after = users.store (userFileName call.username) user := by
  unfold addUser at added
  split at added
  · cases added
  · next named =>
    split at added
    · cases added
    · next given =>
      split at added
      · cases added
      · split at added
        · cases added
        · obtain ⟨saltBytes, isSalt⟩ := exists_narrowBytes?_hexText call.random
          cases isPassword : narrowBytes? call.password.1 with
          | none =>
            rw [pbkdf2HmacSha256Hex_wide _ isPassword (saltFits call)] at added
            cases added
          | some passwordBytes =>
            rw [pbkdf2HmacSha256Hex_default _ isPassword (saltFits call)
              isSalt] at added
            obtain rfl := Except.ok.inj added
            exact ⟨_, ⟨by simpa using named, by simpa using given,
              passwordBytes, saltBytes, isPassword, isSalt, rfl⟩, rfl⟩

theorem History.IsSound.next {history : History}
    (sound : history.IsSound digests) (call : Call) :
    (history.next digests call).IsSound digests := by
  cases call with
  | verify native username password => exact sound
  | add call =>
    dsimp only [History.next]
    cases added : addUser digests call history.users with
    | error message => exact sound
    | ok after =>
      obtain ⟨user, isRecord, rfl⟩ := addUser_eq_ok added
      intro file
      dsimp only
      by_cases same : userFileName call.username = file
      · subst same
        exact .inr ⟨call, user, Entries.lookup_store_self _ _ _,
          Function.update_self .., isRecord⟩
      · rw [Entries.lookup_store_of_ne _ same,
          Function.update_of_ne (Ne.symm same)]
        exact sound file

variable (digests) in
theorem isSound_historyOf (calls : List Call) :
    (historyOf digests calls).IsSound digests := by
  have keep : ∀ history : History, history.IsSound digests →
      (calls.foldl (History.next digests) history).IsSound digests := by
    induction calls with
    | nil => exact fun _ sound => sound
    | cons call rest ih => exact fun _ sound => ih _ (sound.next call)
  exact keep _ fun file => .inl ⟨rfl, rfl⟩

theorem verifyUser_of_isRecordOf {call : AddCall} {user : StoredUser}
    {users : Users} {username : Text} (native : Bool) (password : Password)
    (found : users.lookup (userFileName username) = some user)
    (isRecord : IsRecordOf digests call user)
    (named : isTrue username = true) (given : isTrue password.1 = true) :
    verifyUser digests native users username password.1 =
      (pbkdf2HmacSha256Hex digests native password.1 (hexText call.random)
        defaultIterations).map fun expected =>
          if expected = user.passwordHash then some user else none := by
  obtain ⟨-, -, passwordBytes, saltBytes, -, -, rfl⟩ := isRecord
  have iterations : isTrue defaultIterations = true := by decide
  simp [verifyUser, named, given, found, expectedPasswordHash, iterations]

/-- OpenSSL refuses a text that `Digest::SHA` takes. -/
theorem outcome_of_large (isPassword : narrowBytes? password =
      some passwordBytes) (large : intMax < password.length) :
    pbkdf2HmacSha256Hex digests true password [] ['1'] ≠
      pbkdf2HmacSha256Hex digests false password [] ['1'] := by
  have counts : isCount ['1'] = true := by decide +kernel
  have isSalt : narrowBytes? [] = some [] := rfl
  have tooLong :
      intMax < passwordBytes.length ∨ intMax < ([] : Bytes).length :=
    .inl (by rwa [length_of_narrowBytes? isPassword])
  have refused : deriveSha256 digests true password [] ['1'] =
      .error "PBKDF2 password or salt is too large".toList := by
    rw [deriveSha256, if_neg (by simp [counts]), isPassword, isSalt]
    exact if_pos tooLong
  have declined : deriveSha256 digests false password [] ['1'] = .ok none := by
    rw [deriveSha256, if_neg (by simp [counts]), isPassword, isSalt]
    rfl
  rw [pbkdf2HmacSha256Hex, pbkdf2HmacSha256Hex, refused, declined]
  dsimp only
  rw [digestShaHex_of_narrow isPassword isSalt counts]
  intro same
  cases same

/-- A digest that says nothing, of the usual length. -/
def zeroDigests : Digests :=
  ⟨fun _ _ => List.replicate 32 0, fun _ => List.replicate 32 0⟩

end DeveloperDashboard.Session.PasswordDerivation
