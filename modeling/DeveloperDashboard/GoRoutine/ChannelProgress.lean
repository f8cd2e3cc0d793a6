import DeveloperDashboard.GoRoutine.ChannelFifo

namespace DeveloperDashboard.GoRoutine

open Library

/-!
# Channels do not deadlock

A critical section that finds nothing leaves its call where it stands.  A send
finds nothing only in a full channel and a receive only in an empty one.
-/

variable {Node : Type}

/-- What keeps a send on a channel that is open. -/
def SendState.Blocked (ch : GoChannel Node) : SendState Node → Prop
  | .waitingSlot _ => ch.slot.isSome = true
  | .waitingReceiver _ seq => ch.consumedSeq < seq
  | .waitingRoom _ => ch.count = ch.capacity
  | _ => False

theorem sendStep?_stays {ch next : GoChannel Node} {input : SendInput Node}
    {before : SendState Node}
    (stays : sendStep? ch input before = some (next, before)) :
    input.cancelled = false ∧ ch.closed = false ∧ before.Blocked ch := by
  cases before <;>
    simp only [sendStep?, channelSendAwaitSlot, channelSendAwaitReceiver,
      channelSendAwaitRoom, channelSendFinish] at stays <;>
    grind [SendState.Blocked]

theorem receiveStep?_stays {ch next : GoChannel Node} {cancelled : Bool}
    {before : ReceiveState Node}
    (stays : receiveStep? ch cancelled before = some (next, before)) :
    cancelled = false ∧ ch.closed = false ∧ channelSize ch = 0 := by
  cases before <;>
    simp only [receiveStep?, channelReceiveSlot, channelReceiveBuffer]
      at stays <;>
    grind [channelSize]

namespace ChannelState

/-- The next critical section leaves the call where it stands. -/
def SendStays (state : ChannelState Node) (call : Nat)
    (input : SendInput Node) : Prop :=
  ∃ ch,
    sendStep? state.channel input (state.sends call) =
      some (ch, state.sends call)

def ReceiveStays (state : ChannelState Node) (call : Nat)
    (cancelled : Bool) : Prop :=
  ∃ ch,
    receiveStep? state.channel cancelled (state.receives call) =
      some (ch, state.receives call)

end ChannelState

variable {capacity : Nat} {trace : List (ChannelEvent Node)}
  {state : ChannelState Node}

theorem channelSize_of_blocked
    (execution : (channelSystem Node capacity).Execution trace state)
    {call : Nat} (blocked : (state.sends call).Blocked state.channel)
    (isOpen : state.channel.closed = false) :
    channelSize state.channel = max 1 capacity := by
  unfold channelSize
  rcases Nat.eq_zero_or_pos capacity with rfl | positive
  · have invariant := rendezvous_of_execution execution
    rw [if_pos invariant.unbuffered]
    refine if_pos ?_
    cases stands : state.sends call with
    | waitingSlot message =>
      rwa [stands] at blocked
    | waitingReceiver message seq =>
      rw [stands] at blocked
      have pending :
          (state.sends call).publication = .pending message seq := by
        rw [stands]
        rfl
      rw [(invariant.protocol.pendingInSlot pending blocked isOpen).1]
      rfl
    | waitingRoom message =>
      exact (invariant.notRoom call message stands).elim
    | _ =>
      rw [stands] at blocked
      exact blocked.elim
  · obtain ⟨queue, -, queues⟩ :=
      (channel_simulates_queue positive).execution execution
    have sized := queues.capacity_eq
    have buffered := queues.buffered call
    rw [if_neg (by omega)]
    cases stands : state.sends call with
    | waitingRoom message =>
      rw [stands] at blocked
      have full : state.channel.count = state.channel.capacity := blocked
      omega
    | waitingSlot message =>
      exact (buffered (stands ▸ trivial)).elim
    | waitingReceiver message seq =>
      exact (buffered (stands ▸ trivial)).elim
    | _ =>
      rw [stands] at blocked
      exact blocked.elim

end DeveloperDashboard.GoRoutine
