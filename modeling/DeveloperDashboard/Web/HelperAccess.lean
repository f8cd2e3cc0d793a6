import DeveloperDashboard.Library.Transition
import DeveloperDashboard.Session.HelperAccounts
import DeveloperDashboard.Web.AjaxResponse
import DeveloperDashboard.Web.Redirects

namespace DeveloperDashboard.Web

open Library Perl Config Session

/-!
# Access of helpers

A helper logs in with the record of an account and is let in with the session
that the login has stored.  Accounts are added, replaced and removed by
themselves, and a logout removes the account with one of its sessions.
-/

/-- What does not change while the dashboard runs. -/
structure HelperApp where
  auth : AuthApp
  pbkdf2Hex : Text → Text → Nat → Text

structure AccessState where
  users : List UserRoot
  sessions : List SessionRoot
  thisYear : Nat
  now : Nat

/-- What `_handle_login` comes to. -/
inductive LoginAnswer where
  | helperAccessDisabled
  | invalid (redirectTo : Text)
  | loggedIn (redirectTo sessionId username : Text)
  | died (message : Text)

namespace HelperApp

variable (app : HelperApp)

def hashes : PasswordHashes :=
  ⟨app.auth.sha256Hex, app.pbkdf2Hex⟩

def authAt (state : AccessState) : AuthApp :=
  { app.auth with thisYear := state.thisYear, now := state.now }

/-- `authorize_request`, with the accounts of the state. -/
def authorize (state : AccessState) (request : WebRequest) :
    Except Text (AuthOutcome × List SessionRoot) :=
  (app.authAt state).authorizeRequest
    ((listUsers state.users).map UserRecord.username) state.sessions request

/-- `_handle_login`, with the id of the session that may be created. -/
def handleLogin (state : AccessState) (request : WebRequest)
    (sessionId : Text) : LoginAnswer × List SessionRoot :=
  let form := parseQuery request.body
  let redirectTo :=
    sanitizeRedirectTarget (some (form.value "redirect_to"))
  if listUsers state.users = [] then
    (.helperAccessDisabled, state.sessions)
  else
    match verifyUser app.hashes state.users (form.value "username")
        (form.value "password") with
    | none => (.invalid redirectTo, state.sessions)
    | some user =>
      match createSession sessionId user request.remoteAddr state.now
          state.sessions with
      | .error message => (.died message, state.sessions)
      | .ok sessions =>
        (.loggedIn redirectTo sessionId user.username, sessions)

/-- The accounts without the one of a session, if it is a helper's. -/
def removeHelper (record : ConfigHash) (users : List UserRoot) :
    List UserRoot :=
  let username := orEmpty ((recordText record "username").getD [])
  if orEmpty ((recordText record "role").getD []) = "helper".toList ∧
      username ≠ [] then
    removeUser username users
  else users

end HelperApp

inductive AccessInput where
  | addUser (args : UserArgs)
  | removeUser (username : Text)
  | login (request : WebRequest) (sessionId : Text)
  | logout (request : WebRequest)
  | request (request : WebRequest)
  | wait (thisYear now : Nat)

inductive AccessEvent where
  | userAdded (username : Text)
  | userRemoved (username : Text)
  | issued (file username : Text)
  | loggedOut (session : Option ConfigHash)
  | answered
  | rejected
  | waited

namespace HelperApp

variable (app : HelperApp)

def next? (state : AccessState) :
    AccessInput → Option (AccessEvent × AccessState)
  | .addUser args =>
    match addUser app.hashes state.now args state.users with
    | .error _ => some (.rejected, state)
    | .ok users =>
      some (.userAdded args.username, { state with users := users })
  | .removeUser username =>
    some (.userRemoved username,
      { state with users := removeUser username state.users })
  | .login request sessionId =>
    if !isSessionId sessionId then none
    else if app.auth.site.csrfRejects request then some (.rejected, state)
    else
      match app.handleLogin state request sessionId with
      | (.loggedIn _ _ username, sessions) =>
        some (.issued (sessionFileName sessionId) username,
          { state with sessions := sessions })
      | (_, sessions) =>
        some (.rejected, { state with sessions := sessions })
  | .logout request =>
    if app.auth.site.csrfRejects request then some (.rejected, state)
    else
      match fromCookie state.thisYear state.now state.sessions
          request.headers.cookie request.remoteAddr with
      | .error _ => some (.rejected, state)
      | .ok (none, sessions) =>
        some (.loggedOut none, { state with sessions := sessions })
      | .ok (some record, sessions) =>
        some (.loggedOut (some record), { state with
            users := removeHelper record state.users
            sessions :=
              deleteSession sessions (recordText record "session_id") })
  | .request request =>
    match app.authorize state request with
    | .error _ => some (.rejected, state)
    | .ok (_, sessions) =>
      some (.answered, { state with sessions := sessions })
  | .wait thisYear now =>
    if now < state.now then none
    else
      some (.waited, { state with thisYear := thisYear, now := now })

/-- The files of accounts are named after their users. -/
def AreNamed (users : List UserRoot) : Prop :=
  ∀ root ∈ users, ∀ entry ∈ root,
    entry.1 = userFileName entry.2.username ∧
      isTrue entry.2.username = true

def accessSystem : TransitionSystem AccessState AccessEvent :=
  TransitionSystem.ofNext
    (fun state =>
      AreNamed state.users ∧ ∀ root ∈ state.sessions, root = [])
    app.next?

end HelperApp

/-- The session in a file was issued to a user for the record that exists. -/
structure IsCurrent (trace : List AccessEvent) (users : List UserRoot)
    (file username : Text) : Prop where
  exists_ : (getUser users username).isSome = true
  issued :
    ∃ earlier later,
      trace = earlier ++ .issued file username :: later ∧
        ∀ event ∈ later, event ≠ .userAdded username

/-- A session lets nobody in but for a record that it was issued for. -/
def AcceptsOnlyCurrent (app : HelperApp) (trace : List AccessEvent)
    (state : AccessState) : Prop :=
  ∀ request context left,
    app.authorize state request = .ok (.authorized context, left) →
    context.tier = .helper →
      ∃ cookie sessionId,
        request.headers.cookie = some cookie ∧
          (cookiePairs cookie).lookup "dashboard_session".toList =
            some sessionId ∧
          IsCurrent trace state.users (sessionFileName sessionId)
            context.username

def MayBeAccepted (now : Nat) (record : ConfigHash) : Prop :=
  ∃ (thisYear : Nat) (epoch : Int),
    iso8601ToEpoch thisYear .zero (recordText record "expires_at") =
        .ok epoch ∧
      (now : Int) < epoch

/-- No session of an account can still be accepted, but for one file. -/
def HasNoSession (state : AccessState) (username : Text)
    (but : Option Text) : Prop :=
  ∀ root ∈ state.sessions, ∀ file record owner,
    (file, .ok (.hash record)) ∈ root →
    recordText record "username" = some owner →
    userFileName owner = userFileName username →
    some file ≠ but →
      ¬MayBeAccepted state.now record

/-- Accounts are written and removed only while none of their sessions, other
than one that ends, can still be accepted. -/
def LeavesNoSession (state : AccessState) : AccessEvent → Prop
  | .userAdded username => HasNoSession state username none
  | .userRemoved username => HasNoSession state username none
  | .loggedOut (some record) =>
    recordText record "role" = some "helper".toList →
      ∀ username, recordText record "username" = some username →
        HasNoSession state username
          ((recordText record "session_id").map sessionFileName)
  | _ => True

variable {sessions : List SessionRoot}

/-- A request that is not the administrator's is let in by a key, or by the
session of its cookie. -/
theorem of_authorizeRequest
    {app : AuthApp} {users : List Text} {left : List SessionRoot}
    {request : WebRequest} {outcome : AuthOutcome}
    (answered :
      app.authorizeRequest users sessions request = .ok (outcome, left)) :
    (left = sessions ∧
        ∀ context, outcome = .authorized context → context.tier ≠ .helper) ∨
      ∃ session,
        fromCookie app.thisYear app.now sessions request.headers.cookie
            request.remoteAddr = .ok (session, left) ∧
          ∀ context, outcome = .authorized context →
            context.tier = .helper →
              ∃ record, session = some record ∧
                context.username =
                  orEmpty ((recordText record "username").getD []) := by
  have nobody {refusal : Refusal} (same : .refused refusal = outcome) :
      ∀ context, outcome = .authorized context → context.tier ≠ .helper := by
    rintro context rfl
    cases same
  unfold AuthApp.authorizeRequest at answered
  split at answered
  · obtain ⟨refused, rfl⟩ := Prod.mk.inj (Except.ok.inj answered)
    exact Or.inl ⟨rfl, nobody refused⟩
  · split at answered
    · obtain ⟨rfl, rfl⟩ := Prod.mk.inj (Except.ok.inj answered)
      refine Or.inl ⟨rfl, ?_⟩
      intro context same isHelper
      obtain rfl := AuthOutcome.authorized.inj same
      cases isHelper
    · split at answered
      · cases found :
            fromCookie app.thisYear app.now sessions request.headers.cookie
              request.remoteAddr with
        | error message =>
          rw [found] at answered
          cases answered
        | ok result =>
          rw [found] at answered
          obtain ⟨rfl, rfl⟩ := Prod.mk.inj (Except.ok.inj answered)
          refine Or.inr ⟨result.1, rfl, ?_⟩
          intro context same isHelper
          unfold AuthApp.apiPathOutcome at same
          split at same
          · next record isRecord =>
              obtain rfl := AuthOutcome.authorized.inj same
              exact ⟨record, isRecord, rfl⟩
          · split at same
            · obtain rfl := AuthOutcome.authorized.inj same
              cases isHelper
            · cases same
      · split at answered
        · obtain ⟨refused, rfl⟩ := Prod.mk.inj (Except.ok.inj answered)
          exact Or.inl ⟨rfl, nobody refused⟩
        · cases found :
              fromCookie app.thisYear app.now sessions request.headers.cookie
                request.remoteAddr with
          | error message =>
            rw [found] at answered
            cases answered
          | ok result =>
            rw [found] at answered
            obtain ⟨rfl, rfl⟩ := Prod.mk.inj (Except.ok.inj answered)
            refine Or.inr ⟨result.1, rfl, ?_⟩
            intro context same isHelper
            unfold sessionOutcome at same
            split at same
            · next record isRecord =>
                obtain rfl := AuthOutcome.authorized.inj same
                exact ⟨record, isRecord, rfl⟩
            · cases same

structure IsSessionOf (file : Text) (stored : SessionFile)
    (record : ConfigHash) (owner : Text) : Prop where
  parsed : stored = .ok (.hash record)
  named :
    ∃ sessionId,
      recordText record "session_id" = some sessionId ∧
        sessionId ≠ [] ∧ file = sessionFileName sessionId
  ofOwner : recordText record "username" = some owner
  given : Perl.isTrue owner = true

/-- Every session that may still be accepted is one for a current record. -/
structure AccessInvariant (trace : List AccessEvent) (state : AccessState) :
    Prop where
  named : HelperApp.AreNamed state.users
  sound :
    ∀ root ∈ state.sessions, ∀ entry ∈ root, ∃ record owner,
      IsSessionOf entry.1 entry.2 record owner ∧
        (MayBeAccepted state.now record →
          IsCurrent trace state.users entry.1 owner)

theorem MayBeAccepted.mono
    {now later : Nat} {record : ConfigHash} (order : now ≤ later)
    (accepted : MayBeAccepted later record) : MayBeAccepted now record := by
  obtain ⟨thisYear, epoch, read, after⟩ := accepted
  exact ⟨thisYear, epoch, read, by omega⟩

variable {event : AccessEvent}

theorem IsCurrent.append
    {trace : List AccessEvent} {users after : List UserRoot}
    {file owner : Text} (current : IsCurrent trace users file owner)
    (kept : event ≠ .userAdded owner)
    (exists_ : (getUser after owner).isSome = true) :
    IsCurrent (trace ++ [event]) after file owner := by
  refine ⟨exists_, ?_⟩
  obtain ⟨earlier, later, rfl, since⟩ := current.issued
  refine ⟨earlier, later ++ [event], by simp, ?_⟩
  intro other isLater
  rcases List.mem_append.mp isLater with isOld | isNew
  · exact since other isOld
  · rw [List.mem_singleton.mp isNew]
    exact kept

variable {next : AccessState}

namespace AccessInvariant

variable {trace : List AccessEvent} {state : AccessState}

section

variable (invariant : AccessInvariant trace state)

include invariant

/-- A step that stores no session keeps the invariant when it keeps the record
of every session that may still be accepted. -/
theorem keep
    (later : state.now ≤ next.now) (named : HelperApp.AreNamed next.users)
    (old :
      ∀ root ∈ next.sessions, ∀ entry ∈ root,
        ∃ before ∈ state.sessions, entry ∈ before)
    (kept :
      ∀ root ∈ next.sessions, ∀ entry ∈ root, ∀ record owner,
        IsSessionOf entry.1 entry.2 record owner →
        MayBeAccepted state.now record →
          event ≠ .userAdded owner ∧
            ((getUser state.users owner).isSome = true →
              (getUser next.users owner).isSome = true)) :
    AccessInvariant (trace ++ [event]) next := by
  refine ⟨named, ?_⟩
  intro root isRoot entry isIn
  obtain ⟨before, isBefore, wasIn⟩ := old root isRoot entry isIn
  obtain ⟨record, owner, isSession, current⟩ :=
    invariant.sound before isBefore entry wasIn
  refine ⟨record, owner, isSession, ?_⟩
  intro accepted
  have accepted := accepted.mono later
  have current := current accepted
  obtain ⟨notAdded, stays⟩ :=
    kept root isRoot entry isIn record owner isSession accepted
  exact current.append notAdded (stays current.exists_)

theorem keep_users
    (later : state.now ≤ next.now) (same : next.users = state.users)
    (old :
      ∀ root ∈ next.sessions, ∀ entry ∈ root,
        ∃ before ∈ state.sessions, entry ∈ before)
    (other : ∀ username, event ≠ .userAdded username) :
    AccessInvariant (trace ++ [event]) next := by
  refine invariant.keep later (same ▸ invariant.named) old ?_
  intro _ _ _ _ _ owner _ _
  exact ⟨other owner, fun exists_ => same ▸ exists_⟩

theorem addUser
    {hashes : PasswordHashes} {args : UserArgs} {users : List UserRoot}
    (added : Session.addUser hashes state.now args state.users = .ok users)
    (noSession : HasNoSession state args.username none) :
    AccessInvariant (trace ++ [.userAdded args.username])
      { state with users := users } := by
  unfold Session.addUser at added
  split at added
  · cases added
  · next given =>
      rw [Bool.not_eq_true, Bool.not_eq_false'] at given
      split at added
      · cases added
      · split at added
        · cases added
        · split at added
          · cases added
          · obtain rfl := Except.ok.inj added
            refine invariant.keep (Nat.le_refl _) ?_ ?_ ?_
            · intro root isRoot entry isIn
              rcases mem_storeFirst isRoot isIn with
                rfl | ⟨before, isBefore, wasIn⟩
              · exact ⟨rfl, given⟩
              · exact invariant.named before isBefore entry wasIn
            · intro root isRoot entry isIn
              exact ⟨root, isRoot, isIn⟩
            · intro root isRoot entry isIn record owner isSession accepted
              refine ⟨?_, isSome_getUser_storeFirst _ _⟩
              intro same
              obtain rfl := AccessEvent.userAdded.inj same
              refine noSession root isRoot entry.1 record args.username ?_
                isSession.ofOwner rfl (by simp) accepted
              rw [← isSession.parsed]
              exact isIn

theorem removeUser
    {username : Text} {but : Option Text}
    (noSession : HasNoSession state username but)
    (old :
      ∀ root ∈ sessions, ∀ entry ∈ root,
        (∃ before ∈ state.sessions, entry ∈ before) ∧ some entry.1 ≠ but)
    (other : ∀ added, event ≠ .userAdded added) :
    AccessInvariant (trace ++ [event])
      { state with
        users := Session.removeUser username state.users
        sessions := sessions } := by
  refine invariant.keep (Nat.le_refl _) ?_ ?_ ?_
  · intro root isRoot entry isIn
    obtain ⟨before, isBefore, rfl⟩ := List.mem_map.mp isRoot
    exact invariant.named before isBefore entry (List.mem_filter.mp isIn).1
  · intro root isRoot entry isIn
    exact (old root isRoot entry isIn).1
  · intro root isRoot entry isIn record owner isSession accepted
    refine ⟨other owner, ?_⟩
    intro exists_
    have different : userFileName owner ≠ userFileName username := by
      intro same
      obtain ⟨⟨before, isBefore, wasIn⟩, notBut⟩ := old root isRoot entry isIn
      refine noSession before isBefore entry.1 record owner ?_
        isSession.ofOwner same notBut accepted
      rw [← isSession.parsed]
      exact wasIn
    rw [getUser_removeUser_of_ne different]
    exact exists_

/-- A session that is stored after a login. -/
theorem issue
    {hashes : PasswordHashes} {username password sessionId : Text}
    {user : UserRecord} {remoteAddr : Option Text}
    (verified :
      verifyUser hashes state.users username password = some user)
    (isId : isSessionId sessionId = true)
    (created :
      createSession sessionId user remoteAddr state.now state.sessions =
        .ok sessions) :
    AccessInvariant
      (trace ++ [.issued (sessionFileName sessionId) user.username])
      { state with sessions := sessions } := by
  have found := getUser_of_verifyUser verified
  obtain ⟨root, isRoot, isIn⟩ := mem_of_getUser found
  obtain ⟨named, given⟩ := invariant.named root isRoot _ isIn
  have exists_ : (getUser state.users user.username).isSome = true := by
    rw [← getUser_congr named, found]
    rfl
  unfold createSession at created
  rw [given] at created
  obtain rfl := Except.ok.inj created
  refine ⟨invariant.named, ?_⟩
  intro root isRoot entry isIn
  rcases mem_storeFirst isRoot isIn with rfl | ⟨before, isBefore, wasIn⟩
  · refine ⟨_, user.username, ⟨rfl, ⟨sessionId, ?_, ?_, rfl⟩, ?_, given⟩, ?_⟩
    · exact congrArg some (String.toList_ofList)
    · rintro rfl
      cases isId
    · exact congrArg some (String.toList_ofList)
    · intro _
      exact ⟨exists_, trace, [], rfl, by simp⟩
  · obtain ⟨record, owner, isSession, current⟩ :=
      invariant.sound before isBefore entry wasIn
    refine ⟨record, owner, isSession, ?_⟩
    intro accepted
    have current := current accepted
    exact current.append (by simp) current.exists_

end

end AccessInvariant

namespace HelperApp

variable {app : HelperApp}

theorem old_of_fromCookie
    {thisYear now : Nat} {roots left : List SessionRoot}
    {cookie remote : Option Text} {session : Option ConfigHash}
    (found :
      fromCookie thisYear now roots cookie remote = .ok (session, left)) :
    ∀ root ∈ left, ∀ entry ∈ root, ∃ before ∈ roots, entry ∈ before := by
  intro root isRoot entry isIn
  rcases of_fromCookie found with
    ⟨-, rfl | ⟨sessionId, rfl⟩⟩ | ⟨record, -, rfl, -⟩
  · exact ⟨root, isRoot, isIn⟩
  · exact (of_mem_deleteSession isRoot isIn).1
  · exact ⟨root, isRoot, isIn⟩

theorem invariant_login {trace : List AccessEvent} {state : AccessState}
    (invariant : AccessInvariant trace state)
    {request : WebRequest} {sessionId : Text} {answer : LoginAnswer}
    (isId : isSessionId sessionId = true)
    (came : app.handleLogin state request sessionId = (answer, sessions)) :
    (∃ redirectTo username, answer = .loggedIn redirectTo sessionId username ∧
      AccessInvariant
        (trace ++ [.issued (sessionFileName sessionId) username])
        { state with sessions := sessions }) ∨
      ((∀ redirectTo other username,
          answer ≠ .loggedIn redirectTo other username) ∧
        sessions = state.sessions) := by
  unfold handleLogin at came
  dsimp only at came
  split at came
  · obtain ⟨rfl, rfl⟩ := Prod.mk.inj came
    exact Or.inr ⟨by simp, rfl⟩
  · split at came
    · obtain ⟨rfl, rfl⟩ := Prod.mk.inj came
      exact Or.inr ⟨by simp, rfl⟩
    · next user verified =>
        split at came
        · obtain ⟨rfl, rfl⟩ := Prod.mk.inj came
          exact Or.inr ⟨by simp, rfl⟩
        · next stored created =>
            obtain ⟨rfl, rfl⟩ := Prod.mk.inj came
            exact Or.inl ⟨_, _, rfl, invariant.issue verified isId created⟩

theorem eq_some_of_orEmpty
    {given : Option Text} {text : Text} (nonempty : text ≠ [])
    (same : orEmpty (given.getD []) = text) : given = some text := by
  unfold orEmpty at same
  split at same
  · cases given with
    | none => exact absurd same.symm nonempty
    | some other => exact congrArg some same
  · exact absurd same.symm nonempty

/-- A logout keeps the invariant if no other session of its account is left. -/
theorem invariant_logout {trace : List AccessEvent} {state : AccessState}
    (invariant : AccessInvariant trace state) {record : ConfigHash}
    {cookie : Option Text}
    (accepted :
      IsAccepted state.thisYear state.now state.sessions cookie record)
    (leaves : LeavesNoSession state (.loggedOut (some record))) :
    AccessInvariant (trace ++ [.loggedOut (some record)])
      { state with
        users := removeHelper record state.users
        sessions :=
          deleteSession state.sessions (recordText record "session_id") } := by
  obtain ⟨_, _, -, -, root, isRoot, isIn⟩ := accepted.stored
  obtain ⟨other, owner, isSession, -⟩ := invariant.sound root isRoot _ isIn
  obtain rfl : record = other :=
    JsonValue.hash.inj (Except.ok.inj isSession.parsed)
  obtain ⟨sessionId, isId, nonempty, -⟩ := isSession.named
  have old :
      ∀ root ∈ deleteSession state.sessions
          (recordText record "session_id"),
        ∀ entry ∈ root,
          (∃ before ∈ state.sessions, entry ∈ before) ∧
            some entry.1 ≠
              (recordText record "session_id").map sessionFileName := by
    intro root isRoot entry isIn
    obtain ⟨before, notOwn⟩ := of_mem_deleteSession isRoot isIn
    refine ⟨before, ?_⟩
    rw [isId]
    intro same
    exact notOwn sessionId isId nonempty (Option.some.inj same)
  by_cases isHelper :
      orEmpty ((recordText record "role").getD []) = "helper".toList ∧
        orEmpty ((recordText record "username").getD []) ≠ []
  · have noSession :=
      leaves (eq_some_of_orEmpty (by decide) isHelper.1) _
        (eq_some_of_orEmpty isHelper.2 rfl)
    have removed :
        removeHelper record state.users =
          removeUser (orEmpty ((recordText record "username").getD []))
            state.users :=
      if_pos isHelper
    rw [removed]
    exact invariant.removeUser noSession old (by simp)
  · have kept : removeHelper record state.users = state.users :=
      if_neg isHelper
    rw [kept]
    exact invariant.keep_users (Nat.le_refl _) rfl
      (fun root isRoot entry isIn => (old root isRoot entry isIn).1) (by simp)

theorem invariant_next {trace : List AccessEvent} {state : AccessState}
    (invariant : AccessInvariant trace state)
    (step : app.accessSystem.step state event next)
    (leaves : LeavesNoSession state event) :
    AccessInvariant (trace ++ [event]) next := by
  have unchanged {same : AccessEvent}
      (other : ∀ username, same ≠ .userAdded username) :
      AccessInvariant (trace ++ [same]) state :=
    invariant.keep_users (Nat.le_refl _) rfl
      (fun root isRoot entry isIn => ⟨root, isRoot, isIn⟩) other
  obtain ⟨input, taken⟩ := step
  cases input with
  | addUser args =>
    unfold next? at taken
    dsimp only at taken
    cases added : addUser app.hashes state.now args state.users with
    | error message =>
      rw [added] at taken
      obtain ⟨rfl, rfl⟩ := Prod.mk.inj (Option.some.inj taken)
      exact unchanged (by simp)
    | ok users =>
      rw [added] at taken
      obtain ⟨rfl, rfl⟩ := Prod.mk.inj (Option.some.inj taken)
      exact invariant.addUser added leaves
  | removeUser username =>
    obtain ⟨rfl, rfl⟩ := Prod.mk.inj (Option.some.inj taken)
    exact invariant.removeUser leaves
      (fun root isRoot entry isIn =>
        ⟨⟨root, isRoot, isIn⟩, Option.some_ne_none _⟩) (by simp)
  | login request sessionId =>
    unfold next? at taken
    dsimp only at taken
    split at taken
    · cases taken
    · next isId =>
        rw [Bool.not_eq_true, Bool.not_eq_false'] at isId
        split at taken
        · obtain ⟨rfl, rfl⟩ := Prod.mk.inj (Option.some.inj taken)
          exact unchanged (by simp)
        · cases came : app.handleLogin state request sessionId with
          | mk answer sessions =>
            rw [came] at taken
            rcases invariant_login invariant isId came with
              ⟨redirectTo, username, rfl, issued⟩ | ⟨other, rfl⟩
            · obtain ⟨rfl, rfl⟩ := Prod.mk.inj (Option.some.inj taken)
              exact issued
            · cases answer with
              | loggedIn redirectTo id username =>
                exact absurd rfl (other redirectTo id username)
              | helperAccessDisabled =>
                obtain ⟨rfl, rfl⟩ := Prod.mk.inj (Option.some.inj taken)
                exact unchanged (by simp)
              | invalid redirectTo =>
                obtain ⟨rfl, rfl⟩ := Prod.mk.inj (Option.some.inj taken)
                exact unchanged (by simp)
              | died message =>
                obtain ⟨rfl, rfl⟩ := Prod.mk.inj (Option.some.inj taken)
                exact unchanged (by simp)
  | logout request =>
    unfold next? at taken
    dsimp only at taken
    split at taken
    · obtain ⟨rfl, rfl⟩ := Prod.mk.inj (Option.some.inj taken)
      exact unchanged (by simp)
    · split at taken
      · obtain ⟨rfl, rfl⟩ := Prod.mk.inj (Option.some.inj taken)
        exact unchanged (by simp)
      · next sessions found =>
          obtain ⟨rfl, rfl⟩ := Prod.mk.inj (Option.some.inj taken)
          exact invariant.keep_users (Nat.le_refl _) rfl
            (old_of_fromCookie found) (by simp)
      · next record sessions found =>
          obtain ⟨rfl, rfl⟩ := Prod.mk.inj (Option.some.inj taken)
          rcases of_fromCookie found with
            ⟨none_, -⟩ | ⟨other, same, rfl, accepted⟩
          · cases none_
          · obtain rfl := Option.some.inj same
            exact invariant_logout invariant accepted leaves
  | request request =>
    unfold next? at taken
    dsimp only at taken
    cases answered : app.authorize state request with
    | error message =>
      rw [answered] at taken
      obtain ⟨rfl, rfl⟩ := Prod.mk.inj (Option.some.inj taken)
      exact unchanged (by simp)
    | ok result =>
      rw [answered] at taken
      obtain ⟨rfl, rfl⟩ := Prod.mk.inj (Option.some.inj taken)
      rcases of_authorizeRequest answered with
        ⟨same, -⟩ | ⟨session, found, -⟩
      · rw [same]
        exact unchanged (by simp)
      · exact invariant.keep_users (Nat.le_refl _) rfl
          (old_of_fromCookie found) (by simp)
  | wait thisYear now =>
    unfold next? at taken
    dsimp only at taken
    split at taken
    · cases taken
    · next later =>
        obtain ⟨rfl, rfl⟩ := Prod.mk.inj (Option.some.inj taken)
        exact invariant.keep_users (Nat.le_of_not_lt later) rfl
          (fun root isRoot entry isIn => ⟨root, isRoot, isIn⟩) (by simp)

theorem acceptsOnlyCurrent_of_invariant
    {trace : List AccessEvent} {state : AccessState}
    (invariant : AccessInvariant trace state) :
    AcceptsOnlyCurrent app trace state := by
  intro request context left answered isHelper
  rcases of_authorizeRequest answered with
    ⟨-, other⟩ | ⟨session, found, helper⟩
  · exact absurd isHelper (other context rfl)
  · obtain ⟨record, rfl, named⟩ := helper context rfl isHelper
    rcases of_fromCookie found with
      ⟨none_, -⟩ | ⟨other, same, -, accepted⟩
    · cases none_
    · obtain rfl := Option.some.inj same
      obtain ⟨text, sessionId, isCookie, isId, root, isRoot, isIn⟩ :=
        accepted.stored
      obtain ⟨epoch, read, later⟩ := accepted.unexpired
      obtain ⟨stored, owner, isSession, current⟩ :=
        invariant.sound root isRoot _ isIn
      obtain rfl : record = stored :=
        JsonValue.hash.inj (Except.ok.inj isSession.parsed)
      have isOwner : context.username = owner := by
        rw [named, isSession.ofOwner]
        exact orEmpty_of_isTrue isSession.given
      rw [isOwner]
      exact ⟨text, sessionId, isCookie, isId,
        current ⟨_, epoch, read, later⟩⟩

/--
While accounts are written and removed only when none of their sessions can
still be accepted, a session lets nobody in but for the record that it was
issued for.
-/
theorem acceptsOnlyCurrent_of_execution
    {trace : List AccessEvent} {state : AccessState}
    (execution :
      (app.accessSystem.restrict LeavesNoSession).Execution trace state) :
    AcceptsOnlyCurrent app trace state := by
  refine acceptsOnlyCurrent_of_invariant
    (execution.invariant AccessInvariant ?_ ?_)
  · rintro state ⟨named, empty⟩
    refine ⟨named, ?_⟩
    intro root isRoot entry isIn
    rw [empty root isRoot] at isIn
    cases isIn
  · rintro trace state event next invariant ⟨step, leaves⟩
    exact invariant_next invariant step leaves

end HelperApp

def entersAs (app : HelperApp) (state : AccessState) (request : WebRequest) :
    Option Text :=
  match app.authorize state request with
  | .ok (.authorized context, _) =>
    if context.tier = .helper then some context.username else none
  | _ => none

/-- A dashboard without keys and names of its own. -/
def plainApp : HelperApp where
  auth :=
    { site := ⟨fun _ => none, []⟩
      sha256Hex := id
      sslProxied := false
      apiFragments := []
      apiFiles := []
      thisYear := 127
      now := 1800000000 }
  pbkdf2Hex := fun password salt _ => salt ++ password

def remoteRequest (path method body : String) (cookie : Option Text) :
    WebRequest where
  path := path.toList
  query := []
  method := method.toList
  body := body.toList
  remoteAddr := some "10.0.0.2".toList
  headers :=
    ⟨some "dash:7890".toList, cookie, none, none, none, none, none⟩

def firstState : AccessState :=
  ⟨[[]], [[]], 127, 1800000000⟩

def bobSession : Text :=
  List.replicate 64 'b'

def accountOf (username : String) : UserArgs :=
  ⟨username.toList, "password".toList, [], "salt".toList⟩

def bobLogin : WebRequest :=
  remoteRequest "/login" "POST" "username=bob&password=password" none

def bobRequest : WebRequest :=
  remoteRequest "/" "GET" ""
    (some ("dashboard_session=".toList ++ bobSession))

/-- Bob is let in after his account is gone. -/
theorem removed_account_still_enters :
    ∃ trace state,
      plainApp.accessSystem.Execution trace state ∧
        ¬AcceptsOnlyCurrent plainApp trace state := by
  obtain ⟨trace, state, execution, checked⟩ :=
    TransitionSystem.Execution.of_runInputs
      (fun state =>
        HelperApp.AreNamed state.users ∧ ∀ root ∈ state.sessions, root = [])
      plainApp.next? firstState
      [.addUser (accountOf "ann"), .addUser (accountOf "bob"),
        .login bobLogin bobSession, .removeUser "bob".toList]
      (fun _ state =>
        decide (entersAs plainApp state bobRequest = some "bob".toList) &&
          (getUser state.users "bob".toList).isNone)
      ⟨by simp [HelperApp.AreNamed, firstState], by simp [firstState]⟩
      (by decide +kernel)
  refine ⟨trace, state, execution, ?_⟩
  intro accepts
  rw [Bool.and_eq_true, decide_eq_true_eq] at checked
  obtain ⟨enters, gone⟩ := checked
  unfold entersAs at enters
  split at enters
  · next context left answered =>
      split at enters
      · next isHelper =>
          obtain ⟨_, _, -, -, current⟩ :=
            accepts bobRequest context left answered isHelper
          have exists_ := current.exists_
          rw [Option.some.inj enters, Option.isNone_iff_eq_none.mp gone]
            at exists_
          cases exists_
      · cases enters
  · cases enters

theorem hasNoSession_firstState (username : Text) (but : Option Text) :
    HasNoSession firstState username but := by
  intro root isRoot file record owner isIn
  rw [List.mem_singleton.mp isRoot] at isIn
  cases isIn

/-- Bob is let in while his account is there. -/
theorem acceptsOnlyCurrent_of_login :
    ∃ trace state,
      trace.length = 2 ∧
        entersAs plainApp state bobRequest = some "bob".toList ∧
        AcceptsOnlyCurrent plainApp trace state := by
  have start :
      (plainApp.accessSystem.restrict LeavesNoSession).Execution []
        firstState :=
    .start ⟨by simp [HelperApp.AreNamed, firstState], by simp [firstState]⟩
  have added :=
    start.extend
      ⟨⟨.addUser (accountOf "bob"), rfl⟩, hasNoSession_firstState _ _⟩
  have issued := added.extend ⟨⟨.login bobLogin bobSession, rfl⟩, trivial⟩
  exact ⟨_, _, rfl, by decide +kernel,
    HelperApp.acceptsOnlyCurrent_of_execution issued⟩

end DeveloperDashboard.Web
