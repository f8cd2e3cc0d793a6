import DeveloperDashboard.GoRoutine.ChannelRendezvous

namespace DeveloperDashboard.GoRoutine

open Library

/-!
# Buffered channels are bounded FIFO queues

On a channel of positive capacity the critical sections of sends and receives
push and pop the ring of the buffer.  The channel therefore simulates a
bounded queue, and the order of messages, their single delivery and the
meaning of a closed and empty receive are read off the queue.
-/

variable {Node : Type}

/-- The effect of one critical section of a send on a buffered channel. -/
inductive BufferedSend (ch : GoChannel Node) :
    GoChannel Node → SendState Node → Prop where
  | quiet
      {after : SendState Node}
      (notReturned : ¬ after.Returned) :
      BufferedSend ch ch after
  | enqueue
      (message : Node)
      (isOpen : ch.closed = false)
      (room : ch.count ≠ ch.capacity) :
      BufferedSend ch
        (ch.withRing (ch.ring.push message))
        (.returned message 0)

/-- The effect of one critical section of a receive on a buffered channel. -/
inductive BufferedReceive (ch : GoChannel Node) :
    GoChannel Node → ReceiveState Node → Prop where
  | quiet
      {after : ReceiveState Node}
      (notReturned : ∀ message seq, after ≠ .returned message seq)
      (notDrained : after ≠ .closedEmpty) :
      BufferedReceive ch ch after
  | dequeue
      (nonempty : 0 < ch.count) :
      BufferedReceive ch
        (ch.withRing ch.ring.pop)
        (match ch.ring.front with
          | some message => .returned message 0
          | none => .threw receiveWithoutValue)
  | drained
      (isClosed : ch.closed = true)
      (empty : ch.count = 0) :
      BufferedReceive ch ch .closedEmpty

def SendState.Unbuffered : SendState Node → Prop
  | .waitingSlot _ => True
  | .waitingReceiver _ _ => True
  | _ => False

variable {ch : GoChannel Node}

/-- The wait for room waits on, throws, or pushes and returns. -/
theorem channelSendAwaitRoom_effect (buffered : 0 < ch.capacity)
    (message : Node) (cancelled : Bool) :
    BufferedSend ch
        (channelSendAwaitRoom ch message cancelled).1
        (channelSendAwaitRoom ch message cancelled).2 ∧
      ¬ (channelSendAwaitRoom ch message cancelled).2.Unbuffered := by
  have notUnbuffered : ¬ ch.capacity = 0 := Nat.ne_of_gt buffered
  unfold channelSendAwaitRoom
  split
  · exact ⟨.quiet (by rintro ⟨_, _, same⟩; cases same), id⟩
  · next leaves =>
      split
      · next ready =>
          have room : ch.count ≠ ch.capacity := by
            intro full
            exact leaves ⟨ready.1, full, ready.2⟩
          have finished :
              channelSendFinish
                  (ch.withRing (ch.ring.push message))
                  message 0 cancelled =
                .returned message 0 := by
            simp [channelSendFinish, GoChannel.withRing, ready]
          have queued :
              { ch with
                buffer := ch.buffer.set ch.tail (some message)
                tail := (ch.tail + 1) % ch.capacity
                count := ch.count + 1 } =
                ch.withRing (ch.ring.push message) := rfl
          simp only [queued, finished]
          exact ⟨.enqueue message ready.2 room, id⟩
      · next ended =>
          have ended : cancelled = true ∨ ch.closed = true := by
            cases cancelled <;> simp_all
          obtain ⟨error, finished⟩ :=
            channelSendFinish_unpublished message ended
          simp only [finished]
          exact ⟨.quiet (by rintro ⟨_, _, same⟩; cases same), id⟩

theorem sendStep?_buffered {next : GoChannel Node} {input : SendInput Node}
    {before after : SendState Node} (buffered : 0 < ch.capacity)
    (usesBuffer : ¬ before.Unbuffered)
    (advance : sendStep? ch input before = some (next, after)) :
    BufferedSend ch next after ∧ ¬ after.Unbuffered := by
  have notUnbuffered : ¬ ch.capacity = 0 := Nat.ne_of_gt buffered
  cases before with
  | called =>
    simp only [sendStep?, Option.some.injEq, Prod.mk.injEq] at advance
    obtain ⟨rfl, rfl⟩ := advance
    split <;>
      exact ⟨.quiet (by rintro ⟨_, _, same⟩; cases same), id⟩
  | admitted =>
    simp only [sendStep?, Option.some.injEq, Prod.mk.injEq] at advance
    obtain ⟨rfl, rfl⟩ := advance
    split <;>
      exact ⟨.quiet (by rintro ⟨_, _, same⟩; cases same), id⟩
  | marshalling =>
    simp only [sendStep?, Option.some.injEq, Prod.mk.injEq] at advance
    obtain ⟨rfl, rfl⟩ := advance
    split <;>
      exact ⟨.quiet (by rintro ⟨_, _, same⟩; cases same), id⟩
  | marshalled message =>
    simp only [sendStep?, notUnbuffered, if_false, Option.some.injEq]
      at advance
    have effect := channelSendAwaitRoom_effect buffered message false
    rwa [advance] at effect
  | waitingRoom message =>
    simp only [sendStep?, Option.some.injEq] at advance
    have effect :=
      channelSendAwaitRoom_effect buffered message input.cancelled
    rwa [advance] at effect
  | waitingSlot message =>
    exact (usesBuffer trivial).elim
  | waitingReceiver message seq =>
    exact (usesBuffer trivial).elim
  | returned message seq =>
    simp [sendStep?] at advance
  | threw error message seq =>
    simp [sendStep?] at advance

/-- The wait for a message waits on, gives up, or pops. -/
theorem channelReceiveBuffer_effect (ch : GoChannel Node)
    (cancelled : Bool) :
    BufferedReceive ch
      (channelReceiveBuffer ch cancelled).1
      (channelReceiveBuffer ch cancelled).2 := by
  unfold channelReceiveBuffer
  split
  · exact .quiet (by intro _ _ same; cases same) (by simp)
  · next leaves =>
      split
      · exact .quiet (by intro _ _ same; cases same) (by simp)
      · next notCancelled =>
          split
          · next nonempty =>
              exact .dequeue nonempty
          · next notFilled =>
              have empty : ch.count = 0 := Nat.eq_zero_of_not_pos notFilled
              have isClosed : ch.closed = true := by
                by_contra stillOpen
                exact leaves ⟨by simpa using notCancelled, empty,
                  by simpa using stillOpen⟩
              simp only [isClosed, if_true]
              exact .drained isClosed empty

variable {after : ReceiveState Node}

theorem receiveStep?_buffered {next : GoChannel Node} {cancelled : Bool}
    {before : ReceiveState Node} (buffered : 0 < ch.capacity)
    (advance : receiveStep? ch cancelled before = some (next, after)) :
    BufferedReceive ch next after := by
  have notUnbuffered : ¬ ch.capacity = 0 := Nat.ne_of_gt buffered
  cases before with
  | called =>
    simp only [receiveStep?, Option.some.injEq, Prod.mk.injEq]
      at advance
    obtain ⟨rfl, rfl⟩ := advance
    split <;>
      exact .quiet (by intro _ _ same; cases same) (by simp)
  | admitted =>
    simp only [receiveStep?, notUnbuffered, if_false,
      Option.some.injEq] at advance
    have effect := channelReceiveBuffer_effect ch false
    rwa [advance] at effect
  | waiting =>
    simp only [receiveStep?, notUnbuffered, if_false,
      Option.some.injEq] at advance
    have effect := channelReceiveBuffer_effect ch cancelled
    rwa [advance] at effect
  | returned message seq =>
    simp [receiveStep?] at advance
  | closedEmpty =>
    simp [receiveStep?] at advance
  | threw error =>
    simp [receiveStep?] at advance

/-! The queue that a channel simulates. -/

/-- What a critical section does to the queue of a buffered channel. -/
def ChannelEvent.queueEvent? :
    ChannelEvent Node → Option (BoundedQueue.Event Node)
  | .send _ (.returned message _) => some (.enqueue message)
  | .receive _ (.returned message _) => some (.dequeue message)
  | .receive _ .closedEmpty => some .drained
  | .close (.ok _) => some .close
  | _ => none

structure ChannelState.Queues
    (capacity : Nat) (state : ChannelState Node)
    (queue : BoundedQueue Node) : Prop where
  capacity_eq : state.channel.capacity = capacity
  holds : state.channel.ring.Holds queue.items
  closed_eq : queue.closed = state.channel.closed
  buffered : ∀ call, ¬ (state.sends call).Unbuffered

variable {call : Nat}

private theorem queueEvent?_of_not_returned {after : SendState Node}
    (notReturned : ¬ after.Returned) :
    (ChannelEvent.send call after).queueEvent? = none := by
  cases after with
  | returned message seq =>
    exact (notReturned ⟨message, seq, rfl⟩).elim
  | _ => rfl

private theorem queueEvent?_of_quiet
    (notReturned : ∀ message seq, after ≠ .returned message seq)
    (notDrained : after ≠ .closedEmpty) :
    (ChannelEvent.receive call after).queueEvent? = none := by
  cases after with
  | returned message seq =>
    exact (notReturned message seq rfl).elim
  | closedEmpty =>
    exact (notDrained rfl).elim
  | _ => rfl

variable {capacity : Nat} {state : ChannelState Node}
  {queue : BoundedQueue Node}

/-- A section of a send is an enqueue or leaves the queue alone. -/
theorem ChannelState.Queues.send (queues : state.Queues capacity queue)
    {after : SendState Node} (effect : BufferedSend state.channel ch after)
    (usesBuffer : ¬ after.Unbuffered) :
    ∃ nextQueue,
      (BoundedQueue.system Node capacity).StepOrStay queue
        (ChannelEvent.send call after).queueEvent? nextQueue ∧
      ChannelState.Queues capacity
        { state with
          channel := ch
          sends := Function.update state.sends call after }
        nextQueue := by
  have buffered (other : Nat) :
      ¬ (Function.update state.sends call after other).Unbuffered := by
    by_cases same : other = call
    · subst same
      simpa using usesBuffer
    · simpa [same] using queues.buffered other
  cases effect with
  | quiet notReturned =>
    refine ⟨queue, ?_, queues.capacity_eq, queues.holds,
      queues.closed_eq, buffered⟩
    rw [queueEvent?_of_not_returned notReturned]
    exact .stay queue
  | enqueue message isOpen room =>
    obtain ⟨items, closed⟩ := queue
    have wasOpen : closed = false := queues.closed_eq.trans isOpen
    subst wasOpen
    have free : state.channel.ring.count < state.channel.ring.capacity :=
      Nat.lt_of_le_of_ne queues.holds.count_le room
    have counted : items.length < capacity := by
      rw [← queues.holds.count_eq, ← queues.capacity_eq]
      exact free
    exact ⟨⟨items ++ [message], false⟩, .step (.enqueue message counted),
      queues.capacity_eq, queues.holds.push free message,
      queues.closed_eq, buffered⟩

/-- A section of a receive is a dequeue, a drained read, or no event. -/
theorem ChannelState.Queues.receive (queues : state.Queues capacity queue)
    (effect : BufferedReceive state.channel ch after) :
    ∃ nextQueue,
      (BoundedQueue.system Node capacity).StepOrStay queue
        (ChannelEvent.receive call after).queueEvent? nextQueue ∧
      ChannelState.Queues capacity
        { state with
          channel := ch
          receives := Function.update state.receives call after }
        nextQueue := by
  obtain ⟨items, closed⟩ := queue
  have counted := queues.holds.count_eq
  cases effect with
  | quiet notReturned notDrained =>
    refine ⟨⟨items, closed⟩, ?_, queues.capacity_eq, queues.holds,
      queues.closed_eq, queues.buffered⟩
    rw [queueEvent?_of_quiet notReturned notDrained]
    exact .stay _
  | dequeue nonempty =>
    cases items with
    | nil =>
      exact (Nat.ne_of_gt nonempty counted).elim
    | cons message rest =>
      rw [queues.holds.front_cons]
      exact ⟨⟨rest, closed⟩, .step (.dequeue message),
        queues.capacity_eq, queues.holds.pop,
        queues.closed_eq, queues.buffered⟩
  | drained isClosed empty =>
    have noItems : items = [] :=
      List.eq_nil_of_length_eq_zero (counted.symm.trans empty)
    have wasClosed : closed = true := queues.closed_eq.trans isClosed
    subst noItems wasClosed
    exact ⟨⟨[], true⟩, .step .drained, queues.capacity_eq,
      queues.holds, queues.closed_eq, queues.buffered⟩

/-- `_channel_close` closes the queue, or finds it closed. -/
theorem ChannelState.Queues.close (positive : 0 < capacity)
    (queues : state.Queues capacity queue) :
    ∃ nextQueue,
      (BoundedQueue.system Node capacity).StepOrStay queue
        (ChannelEvent.close
          (channelClose state.channel).2 :
            ChannelEvent Node).queueEvent? nextQueue ∧
      ChannelState.Queues capacity
        { state with channel := (channelClose state.channel).1 }
        nextQueue := by
  obtain ⟨items, closed⟩ := queue
  have buffered : ¬ state.channel.capacity = 0 := by
    rw [queues.capacity_eq]
    exact Nat.ne_of_gt positive
  unfold channelClose
  split
  · exact ⟨⟨items, closed⟩, .stay _, queues⟩
  · next notClosed =>
      have wasOpen : closed = false :=
        queues.closed_eq.trans (by simpa using notClosed)
      subst wasOpen
      exact ⟨⟨items, true⟩, .step .close, queues.capacity_eq,
        queues.holds, rfl, queues.buffered⟩

theorem channel_simulates_queue {capacity : Nat} (positive : 0 < capacity) :
    TransitionSystem.Simulation
      (channelSystem Node capacity)
      (BoundedQueue.system Node capacity)
      ChannelEvent.queueEvent?
      (ChannelState.Queues capacity) where
  initially := by
    rintro _ rfl
    exact ⟨⟨[], false⟩, rfl, rfl, RingBuffer.holds_nil positive, rfl,
      fun _ => id⟩
  advances := by
    intro state event next queue queues step
    have buffered : 0 < state.channel.capacity := by
      rw [queues.capacity_eq]
      exact positive
    rcases channelStep_cases step with
      ⟨call, input, ch, after, advance, rfl, rfl⟩ |
      ⟨call, cancelled, ch, after, advance, rfl, rfl⟩ |
      ⟨rfl, rfl⟩
    · obtain ⟨effect, usesBuffer⟩ :=
        sendStep?_buffered buffered (queues.buffered call) advance
      exact queues.send effect usesBuffer
    · exact queues.receive (receiveStep?_buffered buffered advance)
    · exact queues.close positive

/-! The calls behind the queue. -/

def SendState.message? : SendState Node → Option Node
  | .returned message _ => some message
  | _ => none

def ReceiveState.message? : ReceiveState Node → Option Node
  | .returned message _ => some message
  | _ => none

/-- The sends that returned, with their messages, in the order of the trace. -/
def accepted (trace : List (ChannelEvent Node)) : List (Nat × Node) :=
  trace.filterMap fun
    | .send call after => after.message?.map (call, ·)
    | _ => none

/-- The receives that returned a message, in the order of the trace. -/
def handedOut (trace : List (ChannelEvent Node)) : List (Nat × Node) :=
  trace.filterMap fun
    | .receive call after => after.message?.map (call, ·)
    | _ => none

theorem accepted_messages (trace : List (ChannelEvent Node)) :
    (accepted trace).map Prod.snd =
      BoundedQueue.enqueued
        (trace.filterMap ChannelEvent.queueEvent?) := by
  rw [accepted, BoundedQueue.enqueued, List.map_filterMap,
    List.filterMap_filterMap]
  apply List.filterMap_congr
  intro event _
  rcases event with ⟨call, after⟩ | ⟨call, after⟩ | ⟨result⟩
  · cases after <;> rfl
  · cases after <;> rfl
  · cases result <;> rfl

theorem handedOut_messages (trace : List (ChannelEvent Node)) :
    (handedOut trace).map Prod.snd =
      BoundedQueue.dequeued
        (trace.filterMap ChannelEvent.queueEvent?) := by
  rw [handedOut, BoundedQueue.dequeued, List.map_filterMap,
    List.filterMap_filterMap]
  apply List.filterMap_congr
  intro event _
  rcases event with ⟨call, after⟩ | ⟨call, after⟩ | ⟨result⟩
  · cases after <;> rfl
  · cases after <;> rfl
  · cases result <;> rfl

structure Records
    (calls : List (Nat × Node)) (result? : Nat → Option Node) : Prop where
  once : (calls.map Prod.fst).Nodup
  mem_iff :
    ∀ {call message},
      (call, message) ∈ calls ↔ result? call = some message

theorem Records.nil {result? : Nat → Option Node}
    (noResult : ∀ call, result? call = none) :
    Records [] result? where
  once := List.nodup_nil
  mem_iff := by simp [noResult]

/-- A call without a result moves on and is recorded if it has one then. -/
theorem Records.update {calls : List (Nat × Node)} {Stands : Type}
    {message? : Stands → Option Node} {stands : Nat → Stands}
    (records : Records calls fun call => message? (stands call))
    (unfinished : message? (stands call) = none) (after : Stands) :
    Records
      (calls ++ ((message? after).map (call, ·)).toList)
      (fun other => message? (Function.update stands call after other)) where
  once := by
    cases result : message? after with
    | none =>
      simpa using records.once
    | some message =>
      rw [List.map_append, List.nodup_append]
      refine ⟨records.once, by simp, ?_⟩
      intro first firstMember second secondMember
      obtain ⟨⟨_, value⟩, member, rfl⟩ := List.mem_map.mp firstMember
      obtain rfl : second = call := by simpa using secondMember
      rintro rfl
      have recorded := records.mem_iff.mp member
      simp [unfinished] at recorded
  mem_iff := by
    intro other value
    rw [List.mem_append, records.mem_iff]
    by_cases same : other = call
    · subst same
      simp [unfinished]
    · simp [same, Ne.symm same]

variable {trace : List (ChannelEvent Node)}

/-- Every execution records each send that returned, once. -/
theorem accepted_records
    (execution :
      (channelSystem Node capacity).Execution trace state) :
    Records (accepted trace) fun call =>
      (state.sends call).message? := by
  refine execution.invariant
    (fun trace state =>
      Records (accepted trace) fun call =>
        (state.sends call).message?) ?_ ?_
  · rintro _ rfl
    exact .nil fun _ => rfl
  · intro trace state event next records step
    rw [accepted, List.filterMap_append, ← accepted]
    rcases channelStep_cases step with
      ⟨call, input, ch, after, advance, rfl, rfl⟩ |
      ⟨call, cancelled, ch, after, advance, rfl, rfl⟩ |
      ⟨rfl, rfl⟩
    · have unfinished : (state.sends call).message? = none := by
        cases stands : state.sends call with
        | returned message seq =>
          simp [stands, sendStep?] at advance
        | _ => rfl
      have updated := records.update unfinished after
      cases result : after.message? <;>
        simpa [result] using updated
    · simpa using records
    · simpa using records

theorem handedOut_records
    (execution :
      (channelSystem Node capacity).Execution trace state) :
    Records (handedOut trace) fun call =>
      (state.receives call).message? := by
  refine execution.invariant
    (fun trace state =>
      Records (handedOut trace) fun call =>
        (state.receives call).message?) ?_ ?_
  · rintro _ rfl
    exact .nil fun _ => rfl
  · intro trace state event next records step
    rw [handedOut, List.filterMap_append, ← handedOut]
    rcases channelStep_cases step with
      ⟨call, input, ch, after, advance, rfl, rfl⟩ |
      ⟨call, cancelled, ch, after, advance, rfl, rfl⟩ |
      ⟨rfl, rfl⟩
    · simpa using records
    · have unfinished : (state.receives call).message? = none := by
        cases stands : state.receives call with
        | returned message seq =>
          simp [stands, receiveStep?] at advance
        | _ => rfl
      have updated := records.update unfinished after
      cases result : after.message? <;>
        simpa [result] using updated
    · simpa using records

private theorem closed_of_queueEvent
    (closes :
      BoundedQueue.Event.close ∈
        trace.filterMap ChannelEvent.queueEvent?) :
    ChannelEvent.close (.ok ()) ∈ trace := by
  obtain ⟨event, member, closing⟩ := List.mem_filterMap.mp closes
  rcases event with ⟨call, after⟩ | ⟨call, after⟩ | ⟨result⟩
  · cases after <;> simp [ChannelEvent.queueEvent?] at closing
  · cases after <;> simp [ChannelEvent.queueEvent?] at closing
  · cases result with
    | error error =>
      simp [ChannelEvent.queueEvent?] at closing
    | ok done =>
      exact member

end DeveloperDashboard.GoRoutine
