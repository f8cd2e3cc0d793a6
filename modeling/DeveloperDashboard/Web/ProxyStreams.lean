import DeveloperDashboard.Library.Transition

namespace DeveloperDashboard.Web.ProxyStreams

open Library

/-!
# The byte pump of the SSL frontend

`_proxy_streams` of Web/Server.pm as a transition system of the pump and its
two peers.  A peer sends, finishes or resets whenever it likes; the pump takes
one step for each answer of `can_read`, `sysread` and `syswrite`.  What a side
has sent is always what its counterpart received, then the chunk in hand, then
what is still unread, so that the pump keeps the order and duplicates nothing.
It leaves at the first end of file of either side.
-/

/-- The accepted client socket and the connected backend socket. -/
inductive Endpoint where
  | client
  | backend
  deriving DecidableEq

/-- `$source == $client ? $backend : $client` -/
def Endpoint.target : Endpoint → Endpoint
  | .client => .backend
  | .backend => .client

/-- What the peer behind one socket has sent and received so far. -/
structure Socket where
  sent : List UInt8 := []
  unread : List UInt8 := []
  finished : Bool := false
  failed : Bool := false
  received : List UInt8 := []

/-- Bytes, an end of file and a pending error make a socket readable. -/
def Socket.readable (socket : Socket) : Bool :=
  !socket.unread.isEmpty || socket.finished || socket.failed

/-- Where the loop stands; `reading []` is the call of `can_read`. -/
inductive Phase where
  | reading (ready : List Endpoint)
  | writing (source : Endpoint) (rest : List UInt8) (ready : List Endpoint)
  | returned (source : Endpoint) (endOfFile : Bool)
  | died (source : Endpoint) (rest : List UInt8)
  deriving DecidableEq

/-- The part of the source's bytes that the loop holds in `$chunk`. -/
def Phase.held (source : Endpoint) : Phase → List UInt8
  | .writing holder rest _ => if holder = source then rest else []
  | .died holder rest => if holder = source then rest else []
  | _ => []

/-- The loop has neither returned nor died. -/
def Phase.running : Phase → Bool
  | .reading _ => true
  | .writing _ _ _ => true
  | _ => false

structure State where
  socket : Endpoint → Socket := fun _ => {}
  phase : Phase := .reading []

def State.change (state : State) (endpoint : Endpoint)
    (edit : Socket → Socket) :
    State :=
  { state with
    socket :=
      Function.update state.socket endpoint (edit (state.socket endpoint)) }

/-- The acts of the peers, then the answers of the system calls. -/
inductive Event where
  | send (source : Endpoint) (bytes : List UInt8)
  | finish (source : Endpoint)
  | reset (source : Endpoint)
  | canRead (ready : List Endpoint)
  | sysread (count : Nat)
  | endOfFile
  | readError
  | syswrite (count : Nat)
  | writeError
  deriving DecidableEq

def Event.ends : Event → Bool
  | .endOfFile => true
  | .readError => true
  | .writeError => true
  | _ => false

/-- `sysread` takes at most 8192 of the bytes that are there. -/
def State.read (state : State) (count : Nat) (source : Endpoint)
    (ready : List Endpoint) :
    Option State :=
  if 0 < count ∧ count ≤ 8192 ∧
      count ≤ (state.socket source).unread.length then
    some {
      state.change source (fun socket =>
        { socket with unread := socket.unread.drop count }) with
      phase :=
        .writing source ((state.socket source).unread.take count) ready }
  else
    none

/-- `syswrite` passes on a part of the chunk, and the inner loop goes on. -/
def State.write (state : State) (count : Nat) (source : Endpoint)
    (rest : List UInt8) (ready : List Endpoint) :
    Option State :=
  if count ≤ rest.length then
    some {
      state.change source.target
        (fun socket =>
          { socket with received := socket.received ++ rest.take count }) with
      phase :=
        if rest.drop count = [] then .reading ready
        else .writing source (rest.drop count) ready }
  else
    none

/-- One step of `_proxy_streams` or of a peer. -/
def advance (state : State) (event : Event) :
    Option State :=
  match event, state.phase with
  | .send source bytes, _ =>
    if (state.socket source).finished || (state.socket source).failed then
      none
    else
      some (state.change source fun socket =>
        { socket with
          sent := socket.sent ++ bytes
          unread := socket.unread ++ bytes })
  | .finish source, _ =>
    some (state.change source fun socket =>
      { socket with finished := true })
  | .reset source, _ =>
    some (state.change source fun socket => { socket with failed := true })
  | .canRead ready, .reading [] =>
    if ready.Nodup ∧
        ready.all (fun source => (state.socket source).readable) then
      some { state with phase := .reading ready }
    else
      none
  | .sysread count, .reading (source :: ready) =>
    state.read count source ready
  | .endOfFile, .reading (source :: _) =>
    if (state.socket source).unread = [] ∧
        (state.socket source).finished = true then
      some { state with phase := .returned source true }
    else
      none
  | .readError, .reading (source :: _) =>
    if (state.socket source).failed then
      some { state with phase := .returned source false }
    else
      none
  | .syswrite count, .writing source rest ready =>
    state.write count source rest ready
  | .writeError, .writing source rest _ =>
    some { state with phase := .died source rest }
  | _, _ => none

/-- The pump starts with two sockets through which nothing has passed. -/
def pump : TransitionSystem State Event :=
  .ofNext (· = {}) fun state event =>
    (advance state event).map fun next => (event, next)

/-- What a side sent is received, in hand or still to be read. -/
def Conserves (state : State) : Prop :=
  ∀ source,
    (state.socket source).sent =
      (state.socket source.target).received ++
        state.phase.held source ++ (state.socket source).unread

/-- A source whose end of file was read has nothing left to send. -/
def Drained (state : State) : Prop :=
  ∀ source,
    state.phase = .returned source true →
      (state.socket source).finished = true ∧
        (state.socket source).unread = []

variable {state : State}

theorem conserves_read {next : State} {count : Nat} {source : Endpoint}
    {ready : List Endpoint} (conserved : Conserves state)
    (reading : state.phase = .reading (source :: ready))
    (taken : state.read count source ready = some next) :
    Conserves next := by
  unfold State.read at taken
  split at taken
  · cases taken
    intro other
    have before := conserved other
    rw [reading] at before
    cases source <;> cases other <;>
      simpa [State.change, Phase.held, Endpoint.target] using before
  · cases taken

/-- A write moves the front of the chunk to the target. -/
theorem conserves_write {next : State} {count : Nat} {source : Endpoint}
    {rest : List UInt8} {ready : List Endpoint} (conserved : Conserves state)
    (writing : state.phase = .writing source rest ready)
    (taken : state.write count source rest ready = some next) :
    Conserves next := by
  unfold State.write at taken
  split at taken
  · cases taken
    intro other
    have before := conserved other
    rw [writing] at before
    have whole : rest.take count ++ rest.drop count = rest :=
      List.take_append_drop count rest
    by_cases done : rest.drop count = []
    · rw [done, List.append_nil] at whole
      cases source <;> cases other <;>
        simpa [State.change, Phase.held, Endpoint.target, done, whole]
          using before
    · rw [← whole] at before
      cases source <;> cases other <;>
        simpa [State.change, Phase.held, Endpoint.target, done] using before
  · cases taken

theorem conserves_mark {edit : Socket → Socket} (conserved : Conserves state)
    (source : Endpoint)
    (keeps :
      ∀ socket,
        (edit socket).sent = socket.sent ∧
          (edit socket).received = socket.received ∧
          (edit socket).unread = socket.unread) :
    Conserves (state.change source edit) := by
  intro other
  obtain ⟨sameSent, sameReceived, sameUnread⟩ :=
    keeps (state.socket source)
  have before := conserved other
  cases source <;> cases other <;>
    simpa [State.change, Endpoint.target, sameSent, sameReceived,
      sameUnread] using before

theorem conserves_phase {phase : Phase} (conserved : Conserves state)
    (same : ∀ source, phase.held source = state.phase.held source) :
    Conserves { state with phase := phase } := by
  intro other
  rw [same other]
  exact conserved other

variable {event : Event}

/-- No step loses, repeats or reorders a byte. -/
theorem conserves_advance {next : State} (conserved : Conserves state)
    (step : advance state event = some next) :
    Conserves next := by
  unfold advance at step
  split at step
  · next source _ =>
      split at step
      · cases step
      · cases step
        intro other
        have before := conserved other
        cases source <;> cases other <;>
          simp_all [State.change, Endpoint.target]
  · cases step
    exact conserves_mark conserved _ fun _ => ⟨rfl, rfl, rfl⟩
  · cases step
    exact conserves_mark conserved _ fun _ => ⟨rfl, rfl, rfl⟩
  · next waiting =>
      split at step
      · cases step
        exact conserves_phase conserved fun _ => by rw [waiting]; rfl
      · cases step
  · next reading =>
      exact conserves_read conserved reading step
  · next reading =>
      split at step
      · cases step
        exact conserves_phase conserved fun _ => by rw [reading]; rfl
      · cases step
  · next reading =>
      split at step
      · cases step
        exact conserves_phase conserved fun _ => by rw [reading]; rfl
      · cases step
  · next writing =>
      exact conserves_write conserved writing step
  · next writing =>
      cases step
      exact conserves_phase conserved fun _ => by rw [writing]; rfl
  · cases step

theorem drained_change {edit : Socket → Socket} (drained : Drained state)
    (source : Endpoint)
    (keeps :
      (state.socket source).finished = true →
        (edit (state.socket source)).finished = true ∧
          (edit (state.socket source)).unread =
            (state.socket source).unread) :
    Drained (state.change source edit) := by
  intro other left
  obtain ⟨finished, unread⟩ := drained other left
  by_cases same : other = source
  · subst same
    obtain ⟨still, sameUnread⟩ := keeps finished
    simp [State.change, still, sameUnread, unread]
  · simp [State.change, Function.update_of_ne same, finished, unread]

/-- Nobody sends behind an end of file. -/
theorem drained_advance {next : State} (drained : Drained state)
    (step : advance state event = some next) :
    Drained next := by
  unfold advance at step
  split at step
  · split at step
    · cases step
    · next opened =>
        cases step
        refine drained_change drained _ fun finished => ?_
        simp [finished] at opened
  · cases step
    exact drained_change drained _ fun _ => ⟨rfl, rfl⟩
  · cases step
    exact drained_change drained _ fun finished => ⟨finished, rfl⟩
  · split at step
    · cases step
      intro source left
      cases left
    · cases step
  · unfold State.read at step
    split at step
    · cases step
      intro source left
      cases left
    · cases step
  · split at step
    · next ended =>
        cases step
        intro source left
        cases left
        exact ended.symm
    · cases step
  · split at step
    · cases step
      intro source left
      cases left
    · cases step
  · unfold State.write at step
    split at step
    · cases step
      intro source left
      dsimp only at left
      split at left <;> cases left
    · cases step
  · cases step
    intro source left
    cases left
  · cases step

theorem running_advance {next : State}
    (step : advance state event = some next) :
    next.phase.running = (state.phase.running && !event.ends) := by
  unfold advance State.read State.write at step
  split at step
  all_goals
    repeat' split at step
    all_goals cases step
  all_goals simp_all [State.change, Phase.running, Event.ends]

theorem invariants_of_execution {trace : List Event}
    (execution : pump.Execution trace state) :
    Conserves state ∧ Drained state ∧
      state.phase.running = trace.all fun event => !event.ends := by
  refine execution.invariant
    (fun trace state =>
      Conserves state ∧ Drained state ∧
        state.phase.running = trace.all fun event => !event.ends) ?_ ?_
  · rintro _ rfl
    exact ⟨fun _ => rfl, fun _ left => (by cases left), rfl⟩
  · intro trace state event next before step
    obtain ⟨conserved, drained, running⟩ := before
    obtain ⟨answer, taken⟩ := step
    cases advanced : advance state answer with
    | none =>
      simp [advanced] at taken
    | some reached =>
      obtain ⟨rfl, rfl⟩ : answer = event ∧ reached = next := by
        simpa [advanced] using taken
      refine ⟨conserves_advance conserved advanced,
        drained_advance drained advanced, ?_⟩
      rw [running_advance advanced, running, List.all_append]
      simp

/--
Whatever the order of reads, partial writes and closes, each side has received
a prefix of what the other sent, and what is missing is in hand or unread.
The loop runs until the first end of file, read error or write error; a side
whose end of file ended it had everything forwarded, and of the other side
only what was never read is missing.
-/
theorem forwards_until_one_side_closes {trace : List Event} {state : State}
    (execution : pump.Execution trace state) :
    (∀ source, (state.socket source.target).received <+:
            (state.socket source).sent ∧
          (state.socket source).sent =
            (state.socket source.target).received ++
              state.phase.held source ++ (state.socket source).unread) ∧
      (state.phase.running = true ↔
        ∀ event ∈ trace, event.ends = false) ∧
      (∀ source, state.phase = .returned source true →
          (state.socket source).finished = true ∧
            (state.socket source.target).received =
              (state.socket source).sent) ∧
      ∀ source endOfFile,
        state.phase = .returned source endOfFile →
          ∀ side,
            (state.socket side).sent =
              (state.socket side.target).received ++
                (state.socket side).unread := by
  obtain ⟨conserved, drained, running⟩ :=
    invariants_of_execution execution
  refine ⟨fun source => ⟨?_, conserved source⟩, ?_, ?_, ?_⟩
  · rw [conserved source, List.append_assoc]
    exact List.prefix_append _ _
  · rw [running, List.all_eq_true]
    simp
  · intro source left
    obtain ⟨finished, unread⟩ := drained source left
    refine ⟨finished, ?_⟩
    rw [conserved source, left, unread]
    simp [Phase.held]
  · intro source endOfFile left side
    rw [conserved side, left]
    simp [Phase.held]

/-- A client sends a request and half-closes; the response comes later. -/
def halfClose : List Event :=
  [.send .client [22, 1], .finish .client, .canRead [.client], .sysread 2,
    .syswrite 1, .syswrite 1, .canRead [.client], .endOfFile,
    .send .backend [22, 2], .finish .backend]

/-- The half-close runs through and leaves the response unread. -/
theorem execution_halfClose :
    ∃ state,
      pump.Execution halfClose state ∧
        state.phase = .returned .client true ∧
        (state.socket .backend).sent = [22, 2] ∧
        (state.socket .backend).finished = true ∧
        (state.socket .client).received = [] := by
  obtain ⟨trace, state, execution, checked⟩ :=
    TransitionSystem.Execution.of_runInputs (· = {})
      (fun state event =>
        (advance state event).map fun next => (event, next))
      {} halfClose
      (fun trace state =>
        trace == halfClose && state.phase == .returned .client true &&
          (state.socket .backend).sent == [22, 2] &&
          (state.socket .backend).finished &&
          (state.socket .client).received == [])
      rfl (by decide +kernel)
  simp only [Bool.and_eq_true, beq_iff_eq] at checked
  obtain ⟨⟨⟨⟨rfl, left⟩, sent⟩, finished⟩, received⟩ := checked
  exact ⟨state, execution, left, sent, finished, received⟩

theorem forwards_until_client_halfCloses :
    ∃ state,
      pump.Execution halfClose state ∧
        (state.socket .backend).received = (state.socket .client).sent := by
  obtain ⟨state, execution, left, _⟩ := execution_halfClose
  obtain ⟨_, _, forwarded, _⟩ := forwards_until_one_side_closes execution
  exact ⟨state, execution, (forwarded .client left).2⟩

/-- The response to a half-closed request is never forwarded. -/
theorem not_forwards_behind_halfClose :
    ¬ ∀ (trace : List Event) (state : State),
        pump.Execution trace state →
        (∀ event ∈ trace, event ≠ .writeError ∧ event ≠ .readError) →
        (∀ source, (state.socket source).finished = true) →
        state.phase.running = false →
        ∀ source,
          (state.socket source.target).received =
            (state.socket source).sent := by
  intro claimed
  obtain ⟨state, execution, left, sent, finished, received⟩ :=
    execution_halfClose
  have answers :
      ∀ event ∈ halfClose, event ≠ .writeError ∧ event ≠ .readError := by
    decide +kernel
  have ended : ∀ source, (state.socket source).finished = true := by
    intro source
    cases source with
    | client =>
      obtain ⟨_, drained, _⟩ := invariants_of_execution execution
      exact (drained .client left).1
    | backend =>
      exact finished
  have forwarded :=
    claimed halfClose state execution answers ended (by rw [left]; rfl)
      .backend
  rw [sent] at forwarded
  simp only [Endpoint.target, received] at forwarded
  cases forwarded

end DeveloperDashboard.Web.ProxyStreams
