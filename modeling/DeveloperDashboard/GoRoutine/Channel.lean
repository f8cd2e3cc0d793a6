import DeveloperDashboard.Library.BoundedQueue

namespace DeveloperDashboard.GoRoutine

open Library

/-!
# Native channels

The state of one `go_channel` and the critical sections of `_channel_send`,
`_channel_receive` and `_channel_close`.  Each section runs under the channel
mutex, from its acquisition to the next wait or the final unlock, and is one
function here.  A wait releases the mutex and may return at any time, by a
broadcast or by the fifty millisecond limit, so broadcasts leave no trace in
the model; what a wake-up observes is whether the current routine was
cancelled.  Shared nodes are opaque, and a pointer that may be `NULL` is an
`Option`.
-/

/-- The text of `GO_CANCEL_EXCEPTION`. -/
def goCancelException : String :=
  "__DEVELOPER_DASHBOARD_GOROUTINE_CANCEL__"

def sendOnClosedChannel : String :=
  "send on closed channel"

/-- The fields of `go_channel` that its mutex protects. -/
structure GoChannel (Node : Type) where
  capacity : Nat
  closed : Bool
  slot : Option Node
  slotSeq : Nat
  consumedSeq : Nat
  nextSeq : Nat
  buffer : List (Option Node)
  head : Nat
  tail : Nat
  count : Nat
  deriving Repr, DecidableEq

namespace GoChannel

variable {Node : Type}

def ring (ch : GoChannel Node) : RingBuffer Node where
  capacity := ch.capacity
  cells := ch.buffer
  head := ch.head
  tail := ch.tail
  count := ch.count

def withRing (ch : GoChannel Node) (ring : RingBuffer Node) :
    GoChannel Node :=
  { ch with
    buffer := ring.cells
    head := ring.head
    tail := ring.tail
    count := ring.count }

end GoChannel

/-- `channel(capacity)`: a fresh, open channel. -/
def channel (Node : Type) (capacity : Int) :
    Except String (GoChannel Node) :=
  if capacity < 0 then
    .error "channel() capacity must be zero or greater"
  else
    .ok {
      capacity := capacity.toNat
      closed := false
      slot := none
      slotSeq := 0
      consumedSeq := 0
      nextSeq := 0
      buffer := List.replicate capacity.toNat none
      head := 0
      tail := 0
      count := 0
    }

section Send

variable {Node : Type}

/--
Where one `_channel_send` call stands, with those of its locals that are set:
the marshalled message and the sequence number it published under, which stays
zero until the call fills the slot.
-/
inductive SendState (Node : Type) where
  | called
  | admitted
  | marshalling
  | marshalled (message : Node)
  | waitingSlot (message : Node)
  | waitingReceiver (message : Node) (seq : Nat)
  | waitingRoom (message : Node)
  | returned (message : Node) (seq : Nat)
  | threw (error : String) (message : Option Node) (seq : Nat)
  deriving Repr, DecidableEq

/-- How a send ends once its waits are over, before the final unlock. -/
def channelSendFinish (ch : GoChannel Node) (message : Node) (seq : Nat)
    (cancelled : Bool) :
    SendState Node :=
  -- A rendezvous completed before a simultaneous close or cancel.
  if ch.capacity = 0 ∧ seq ≠ 0 ∧ seq ≤ ch.consumedSeq then
    .returned message seq
  else if cancelled then
    .threw goCancelException (some message) seq
  else if ch.closed then
    .threw sendOnClosedChannel (some message) seq
  else
    .returned message seq

/--
The wait for a receiver, from the test of its loop on.  A cancelled sender
takes its own message back out of the slot.
-/
def channelSendAwaitReceiver (ch : GoChannel Node) (message : Node)
    (seq : Nat) (cancelled : Bool) :
    GoChannel Node × SendState Node :=
  if cancelled = false ∧ ch.consumedSeq < seq ∧ ch.closed = false then
    (ch, .waitingReceiver message seq)
  else if
      cancelled = true ∧ ch.consumedSeq < seq ∧
        ch.slot.isSome ∧ ch.slotSeq = seq then
    let cleared := { ch with slot := none }
    (cleared, channelSendFinish cleared message seq cancelled)
  else
    (ch, channelSendFinish ch message seq cancelled)

/-- The wait for a free slot and, after it, the publication of the message. -/
def channelSendAwaitSlot (ch : GoChannel Node) (message : Node)
    (cancelled : Bool) :
    GoChannel Node × SendState Node :=
  if cancelled = false ∧ ch.slot.isSome ∧ ch.closed = false then
    (ch, .waitingSlot message)
  else if cancelled = false ∧ ch.closed = false then
    let seq := ch.nextSeq + 1
    let published :=
      { ch with nextSeq := seq, slot := some message, slotSeq := seq }
    channelSendAwaitReceiver published message seq false
  else
    (ch, channelSendFinish ch message 0 cancelled)

/-- The wait for room in the buffer and, after it, the write at the tail. -/
def channelSendAwaitRoom (ch : GoChannel Node) (message : Node)
    (cancelled : Bool) :
    GoChannel Node × SendState Node :=
  if cancelled = false ∧ ch.count = ch.capacity ∧ ch.closed = false then
    (ch, .waitingRoom message)
  else if cancelled = false ∧ ch.closed = false then
    let queued :=
      { ch with
        buffer := ch.buffer.set ch.tail (some message)
        tail := (ch.tail + 1) % ch.capacity
        count := ch.count + 1 }
    (queued, channelSendFinish queued message 0 cancelled)
  else
    (ch, channelSendFinish ch message 0 cancelled)

/--
What the surroundings supply to a step of a send: the cancellation flag of the
current routine, and the outcome of marshalling the value outside the mutex.
-/
structure SendInput (Node : Type) where
  cancelled : Bool
  imported : Except String Node

def sendStep? (ch : GoChannel Node) (input : SendInput Node) :
    SendState Node → Option (GoChannel Node × SendState Node)
  | .called =>
    some (ch, if input.cancelled then .threw goCancelException none 0
      else .admitted)
  | .admitted =>
    some (ch, if ch.closed then .threw sendOnClosedChannel none 0
      else .marshalling)
  | .marshalling =>
    some (ch, match input.imported with
      | .ok message => .marshalled message
      | .error error => .threw error none 0)
  | .marshalled message =>
    if ch.capacity = 0 then
      some (channelSendAwaitSlot ch message false)
    else
      some (channelSendAwaitRoom ch message false)
  | .waitingSlot message =>
    some (channelSendAwaitSlot ch message input.cancelled)
  | .waitingReceiver message seq =>
    some (channelSendAwaitReceiver ch message seq input.cancelled)
  | .waitingRoom message =>
    some (channelSendAwaitRoom ch message input.cancelled)
  | .returned .. => none
  | .threw .. => none

end Send

section Receive

variable {Node : Type}

/--
Where one `_channel_receive` call stands.  A call that took a message keeps it
with the number it wrote to `consumed_seq`, zero for a buffered channel.
-/
inductive ReceiveState (Node : Type) where
  | called
  | admitted
  | waiting
  | returned (message : Node) (seq : Nat)
  | closedEmpty
  | threw (error : String)
  deriving Repr, DecidableEq

/-- The error of a receive that found a null message. -/
def receiveWithoutValue : String :=
  "channel receive failed without a value"

/-- The wait of an unbuffered receive and, after it, the take from the slot. -/
def channelReceiveSlot (ch : GoChannel Node) (cancelled : Bool) :
    GoChannel Node × ReceiveState Node :=
  if cancelled = false ∧ ch.slot = none ∧ ch.closed = false then
    (ch, .waiting)
  else if cancelled then
    (ch, .threw goCancelException)
  else
    match ch.slot with
    | some message =>
      ({ ch with consumedSeq := ch.slotSeq, slot := none },
        .returned message ch.slotSeq)
    | none =>
      (ch, if ch.closed then .closedEmpty
        else .threw receiveWithoutValue)

/-- The wait of a buffered receive and, after it, the read at the head. -/
def channelReceiveBuffer (ch : GoChannel Node) (cancelled : Bool) :
    GoChannel Node × ReceiveState Node :=
  if cancelled = false ∧ ch.count = 0 ∧ ch.closed = false then
    (ch, .waiting)
  else if cancelled then
    (ch, .threw goCancelException)
  else if 0 < ch.count then
    let message := (ch.buffer[ch.head]?).join
    let taken :=
      { ch with
        buffer := ch.buffer.set ch.head none
        head := (ch.head + 1) % ch.capacity
        count := ch.count - 1 }
    (taken, match message with
      | some message => .returned message 0
      | none => .threw receiveWithoutValue)
  else
    (ch, if ch.closed then .closedEmpty
      else .threw receiveWithoutValue)

def receiveStep? (ch : GoChannel Node) (cancelled : Bool) :
    ReceiveState Node → Option (GoChannel Node × ReceiveState Node)
  | .called =>
    some (ch, if cancelled then .threw goCancelException else .admitted)
  | .admitted =>
    if ch.capacity = 0 then
      some (channelReceiveSlot ch false)
    else
      some (channelReceiveBuffer ch false)
  | .waiting =>
    if ch.capacity = 0 then
      some (channelReceiveSlot ch cancelled)
    else
      some (channelReceiveBuffer ch cancelled)
  | .returned .. => none
  | .closedEmpty => none
  | .threw _ => none

end Receive

/--
`_channel_close`.  A waiting unbuffered sender has not completed until a
receive, so closing cancels that pending send.
-/
def channelClose {Node : Type} (ch : GoChannel Node) :
    GoChannel Node × Except String Unit :=
  if ch.closed then
    (ch, .error "close of closed channel")
  else
    ({ ch with
        closed := true
        slot := if ch.capacity = 0 then none else ch.slot },
      .ok ())

/-- `_channel_size`. -/
def channelSize {Node : Type} (ch : GoChannel Node) : Nat :=
  if ch.capacity = 0 then
    if ch.slot.isSome then 1 else 0
  else
    ch.count

/--
One channel and all the calls that were ever made on it.  A call is named by a
number; one that was not made yet stands before its first step.
-/
structure ChannelState (Node : Type) where
  channel : GoChannel Node
  sends : Nat → SendState Node
  receives : Nat → ReceiveState Node

def ChannelState.fresh (Node : Type) (capacity : Nat) :
    ChannelState Node where
  channel := {
    capacity := capacity
    closed := false
    slot := none
    slotSeq := 0
    consumedSeq := 0
    nextSeq := 0
    buffer := List.replicate capacity none
    head := 0
    tail := 0
    count := 0
  }
  sends _ := .called
  receives _ := .called

/-- The call that ran a critical section and where it stood afterwards. -/
inductive ChannelEvent (Node : Type) where
  | send (call : Nat) (after : SendState Node)
  | receive (call : Nat) (after : ReceiveState Node)
  | close (result : Except String Unit)

/-- Which call runs its next critical section, and what it observes. -/
inductive ChannelInput (Node : Type) where
  | send (call : Nat) (input : SendInput Node)
  | receive (call : Nat) (cancelled : Bool)
  | close

def channelNext? {Node : Type} (state : ChannelState Node) :
    ChannelInput Node →
      Option (ChannelEvent Node × ChannelState Node)
  | .send call input =>
    match sendStep? state.channel input (state.sends call) with
    | none => none
    | some (ch, after) =>
      some (.send call after, { state with
          channel := ch
          sends := Function.update state.sends call after })
  | .receive call cancelled =>
    match receiveStep? state.channel cancelled
        (state.receives call) with
    | none => none
    | some (ch, after) =>
      some (.receive call after, { state with
          channel := ch
          receives := Function.update state.receives call after })
  | .close =>
    some (.close (channelClose state.channel).2,
      { state with channel := (channelClose state.channel).1 })

/-- The critical sections of all calls on one channel, in any order. -/
def channelSystem (Node : Type) (capacity : Nat) :
    TransitionSystem (ChannelState Node) (ChannelEvent Node) :=
  .ofNext (fun state => state = .fresh Node capacity) channelNext?

theorem channelStep_cases {Node : Type} {capacity : Nat}
    {state next : ChannelState Node} {event : ChannelEvent Node}
    (step : (channelSystem Node capacity).step state event next) :
    (∃ call input ch after,
      sendStep? state.channel input (state.sends call) =
          some (ch, after) ∧
        event = .send call after ∧
        next =
          { state with
            channel := ch
            sends := Function.update state.sends call after }) ∨
    (∃ call cancelled ch after,
      receiveStep? state.channel cancelled (state.receives call) =
          some (ch, after) ∧
        event = .receive call after ∧
        next =
          { state with
            channel := ch
            receives := Function.update state.receives call after }) ∨
    (event = .close (channelClose state.channel).2 ∧
      next =
        { state with channel := (channelClose state.channel).1 }) := by
  obtain ⟨input, advance⟩ := step
  cases input with
  | send call input =>
    simp only [channelNext?] at advance
    cases entered : sendStep? state.channel input
        (state.sends call) with
    | none =>
      simp [entered] at advance
    | some result =>
      simp only [entered, Option.some.injEq, Prod.mk.injEq]
        at advance
      exact Or.inl ⟨call, input, result.1, result.2, entered,
        advance.1.symm, advance.2.symm⟩
  | receive call cancelled =>
    simp only [channelNext?] at advance
    cases entered : receiveStep? state.channel cancelled
        (state.receives call) with
    | none =>
      simp [entered] at advance
    | some result =>
      simp only [entered, Option.some.injEq, Prod.mk.injEq]
        at advance
      exact Or.inr (Or.inl ⟨call, cancelled, result.1, result.2,
        entered, advance.1.symm, advance.2.symm⟩)
  | close =>
    simp only [channelNext?, Option.some.injEq, Prod.mk.injEq]
      at advance
    exact Or.inr (Or.inr ⟨advance.1.symm, advance.2.symm⟩)

theorem channel_eq_fresh (Node : Type) (capacity : Nat) :
    channel Node capacity =
      .ok (ChannelState.fresh Node capacity).channel := by
  simp [channel, ChannelState.fresh]

end DeveloperDashboard.GoRoutine
