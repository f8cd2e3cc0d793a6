import DeveloperDashboard.GoRoutine.Channel

namespace DeveloperDashboard.GoRoutine

open Library

/-!
# Unbuffered channels are a rendezvous

On a channel of capacity zero a send publishes its message in the slot under a
fresh sequence number and waits until a receive records that number.  What one
critical section can do is said once, by `SendEffect` and `ReceiveEffect`; the
invariant of all executions then ties every published number to the call that
published it and to the receive that took it.
-/

variable {Node : Type}

inductive Publication (Node : Type) where
  | unpublished
  | pending (message : Node) (seq : Nat)
  | completed (message : Node) (seq : Nat)
  | failed (message : Node) (seq : Nat)
  deriving Repr, DecidableEq

def Publication.published? : Publication Node → Option (Node × Nat)
  | .unpublished => none
  | .pending message seq => some (message, seq)
  | .completed message seq => some (message, seq)
  | .failed message seq => some (message, seq)

def SendState.publication : SendState Node → Publication Node
  | .waitingReceiver message seq => .pending message seq
  | .returned message seq => .completed message seq
  | .threw _ (some message) seq =>
    if seq = 0 then .unpublished else .failed message seq
  | _ => .unpublished

def SendState.Returned (send : SendState Node) : Prop :=
  ∃ message seq, send = .returned message seq

def SendState.Threw (send : SendState Node) : Prop :=
  ∃ error message seq, send = .threw error message seq

/-- The message published by a send was returned by a receive. -/
def ChannelState.Delivers (state : ChannelState Node)
    (call receiver : Nat) : Prop :=
  ∃ message seq,
    (state.sends call).publication.published? = some (message, seq) ∧
      state.receives receiver = .returned message seq

/-- The message in the slot is the one that a waiting send published. -/
def ChannelState.OwnsSlot (state : ChannelState Node) (call : Nat) : Prop :=
  ∃ message,
    state.channel.slot = some message ∧
      state.sends call =
        .waitingReceiver message state.channel.slotSeq

/-! What one critical section can do on an unbuffered channel. -/

inductive SendEffect (ch : GoChannel Node) :
    Publication Node → GoChannel Node → Publication Node → Prop where
  | quiet
      (publication : Publication Node) :
      SendEffect ch publication ch publication
  | publish
      (message : Node)
      (isOpen : ch.closed = false)
      (slotFree : ch.slot = none) :
      SendEffect ch .unpublished
        { ch with
          nextSeq := ch.nextSeq + 1
          slot := some message
          slotSeq := ch.nextSeq + 1 }
        (.pending message (ch.nextSeq + 1))
  | complete
      (message : Node)
      (seq : Nat)
      (consumed : seq ≤ ch.consumedSeq) :
      SendEffect ch
        (.pending message seq) ch (.completed message seq)
  | withdraw
      (message : Node)
      (seq : Nat)
      (unconsumed : ch.consumedSeq < seq) :
      SendEffect ch
        (.pending message seq)
        { ch with slot := none }
        (.failed message seq)
  | abandon
      (message : Node)
      (seq : Nat)
      (unconsumed : ch.consumedSeq < seq)
      (gone :
        ch.closed = true ∨
          ¬ (ch.slot.isSome ∧ ch.slotSeq = seq)) :
      SendEffect ch
        (.pending message seq) ch (.failed message seq)

theorem SendEffect.capacity_eq {ch next : GoChannel Node}
    {before after : Publication Node}
    (effect : SendEffect ch before next after) :
    next.capacity = ch.capacity := by
  cases effect <;> rfl

inductive ReceiveEffect (ch : GoChannel Node) :
    GoChannel Node → ReceiveState Node → Prop where
  | quiet
      {after : ReceiveState Node}
      (notReturned : ∀ message seq, after ≠ .returned message seq) :
      ReceiveEffect ch ch after
  | take
      (message : Node)
      (inSlot : ch.slot = some message) :
      ReceiveEffect ch
        { ch with consumedSeq := ch.slotSeq, slot := none }
        (.returned message ch.slotSeq)

theorem ReceiveEffect.capacity_eq {ch next : GoChannel Node}
    {after : ReceiveState Node} (effect : ReceiveEffect ch next after) :
    next.capacity = ch.capacity := by
  cases effect <;> rfl

theorem channelSendFinish_unpublished {ch : GoChannel Node} (message : Node)
    {cancelled : Bool} (ended : cancelled = true ∨ ch.closed = true) :
    ∃ error,
      channelSendFinish ch message 0 cancelled =
        .threw error (some message) 0 := by
  cases cancelled with
  | true =>
    exact ⟨goCancelException, by simp [channelSendFinish]⟩
  | false =>
    have isClosed : ch.closed = true := by simpa using ended
    exact ⟨sendOnClosedChannel, by simp [channelSendFinish, isClosed]⟩

private theorem channelSendFinish_consumed {ch : GoChannel Node}
    (message : Node) {seq : Nat} (cancelled : Bool)
    (unbuffered : ch.capacity = 0) (published : 0 < seq)
    (consumed : seq ≤ ch.consumedSeq) :
    channelSendFinish ch message seq cancelled =
      .returned message seq := by
  simp [channelSendFinish, unbuffered, Nat.ne_of_gt published, consumed]

/-- A send whose number was not consumed throws when it is over. -/
private theorem channelSendFinish_unconsumed {ch : GoChannel Node}
    (message : Node) {seq : Nat} {cancelled : Bool}
    (unconsumed : ch.consumedSeq < seq)
    (ended : cancelled = true ∨ ch.closed = true) :
    ∃ error,
      channelSendFinish ch message seq cancelled =
        .threw error (some message) seq := by
  have noRendezvous :
      ¬ (ch.capacity = 0 ∧ seq ≠ 0 ∧ seq ≤ ch.consumedSeq) := by
    omega
  cases cancelled with
  | true =>
    exact ⟨goCancelException, by
      simp [channelSendFinish, noRendezvous]⟩
  | false =>
    have isClosed : ch.closed = true := by simpa using ended
    exact ⟨sendOnClosedChannel, by
      simp [channelSendFinish, noRendezvous, isClosed]⟩

/-- The wait for a receiver waits on, completes, withdraws or abandons. -/
theorem channelSendAwaitReceiver_effect {ch : GoChannel Node}
    (unbuffered : ch.capacity = 0) (message : Node) {seq : Nat}
    (published : 0 < seq) (cancelled : Bool) :
    SendEffect ch (.pending message seq)
      (channelSendAwaitReceiver ch message seq cancelled).1
      (channelSendAwaitReceiver ch message seq cancelled).2.publication := by
  by_cases consumed : seq ≤ ch.consumedSeq
  · have finished :=
      channelSendFinish_consumed message cancelled unbuffered
        published consumed
    have stays : ¬ ch.consumedSeq < seq := Nat.not_lt.mpr consumed
    simp only [channelSendAwaitReceiver, stays, false_and,
      and_false, if_false, finished]
    exact .complete message seq consumed
  · have unconsumed : ch.consumedSeq < seq := Nat.lt_of_not_le consumed
    have failed (error : String) :
        (SendState.threw error (some message) seq).publication =
          .failed message seq :=
      if_neg (Nat.ne_of_gt published)
    unfold channelSendAwaitReceiver
    split
    · exact .quiet (.pending message seq)
    · next left =>
        have ended : cancelled = true ∨ ch.closed = true := by
          cases cancelled <;> simp_all
        split
        · next own =>
            obtain ⟨error, finished⟩ :=
              @channelSendFinish_unconsumed _ { ch with slot := none }
                message seq cancelled unconsumed ended
            simp only [finished, failed]
            exact .withdraw message seq unconsumed
        · next notOwn =>
            obtain ⟨error, finished⟩ :=
              channelSendFinish_unconsumed message unconsumed ended
            simp only [finished, failed]
            refine .abandon message seq unconsumed ?_
            cases cancelled with
            | true =>
              exact Or.inr fun own =>
                notOwn ⟨rfl, unconsumed, own.1, own.2⟩
            | false =>
              exact Or.inl (by simpa using ended)

/-- The wait for the slot waits on, throws, or publishes and waits again. -/
theorem channelSendAwaitSlot_effect {ch : GoChannel Node}
    (consumedBound : ch.consumedSeq ≤ ch.nextSeq) (message : Node)
    (cancelled : Bool) :
    SendEffect ch .unpublished
      (channelSendAwaitSlot ch message cancelled).1
      (channelSendAwaitSlot ch message cancelled).2.publication := by
  unfold channelSendAwaitSlot
  split
  · exact .quiet .unpublished
  · next leaves =>
      split
      · next ready =>
          have slotFree : ch.slot = none := by
            cases filled : ch.slot with
            | none => rfl
            | some other => simp_all
          have waits :
              channelSendAwaitReceiver
                  { ch with
                    nextSeq := ch.nextSeq + 1
                    slot := some message
                    slotSeq := ch.nextSeq + 1 }
                  message (ch.nextSeq + 1) false =
                ({ ch with
                    nextSeq := ch.nextSeq + 1
                    slot := some message
                    slotSeq := ch.nextSeq + 1 },
                  .waitingReceiver message (ch.nextSeq + 1)) :=
            if_pos ⟨rfl, Nat.lt_succ_of_le consumedBound, ready.2⟩
          rw [waits]
          exact .publish message ready.2 slotFree
      · next ended =>
          have ended : cancelled = true ∨ ch.closed = true := by
            cases cancelled <;> simp_all
          obtain ⟨error, finished⟩ :=
            channelSendFinish_unpublished message ended
          simp only [finished]
          exact .quiet .unpublished

theorem sendStep?_effect {ch next : GoChannel Node} {input : SendInput Node}
    {before after : SendState Node} (unbuffered : ch.capacity = 0)
    (consumedBound : ch.consumedSeq ≤ ch.nextSeq)
    (numbered :
      ∀ message seq, before = .waitingReceiver message seq → 0 < seq)
    (notRoom : ∀ message, before ≠ .waitingRoom message)
    (advance : sendStep? ch input before = some (next, after)) :
    SendEffect ch before.publication next after.publication := by
  cases before with
  | called =>
    simp only [sendStep?, Option.some.injEq, Prod.mk.injEq] at advance
    obtain ⟨rfl, rfl⟩ := advance
    split <;> exact .quiet .unpublished
  | admitted =>
    simp only [sendStep?, Option.some.injEq, Prod.mk.injEq] at advance
    obtain ⟨rfl, rfl⟩ := advance
    split <;> exact .quiet .unpublished
  | marshalling =>
    simp only [sendStep?, Option.some.injEq, Prod.mk.injEq] at advance
    obtain ⟨rfl, rfl⟩ := advance
    split <;> exact .quiet .unpublished
  | marshalled message =>
    simp only [sendStep?, unbuffered, if_true, Option.some.injEq]
      at advance
    have effect :=
      channelSendAwaitSlot_effect consumedBound message false
    rwa [advance] at effect
  | waitingSlot message =>
    simp only [sendStep?, Option.some.injEq] at advance
    have effect :=
      channelSendAwaitSlot_effect consumedBound message
        input.cancelled
    rwa [advance] at effect
  | waitingReceiver message seq =>
    simp only [sendStep?, Option.some.injEq] at advance
    have effect :=
      channelSendAwaitReceiver_effect unbuffered message
        (numbered message seq rfl) input.cancelled
    rwa [advance] at effect
  | waitingRoom message =>
    exact (notRoom message rfl).elim
  | returned message seq =>
    simp [sendStep?] at advance
  | threw error message seq =>
    simp [sendStep?] at advance

theorem sendStep?_ne_waitingRoom {ch next : GoChannel Node}
    {input : SendInput Node} {before after : SendState Node}
    (unbuffered : ch.capacity = 0)
    (notRoom : ∀ message, before ≠ .waitingRoom message)
    (advance : sendStep? ch input before = some (next, after))
    (message : Node) :
    after ≠ .waitingRoom message := by
  have finish (ch : GoChannel Node) (other : Node) (seq : Nat)
      (cancelled : Bool) :
      channelSendFinish ch other seq cancelled ≠
        .waitingRoom message := by
    unfold channelSendFinish
    split_ifs <;> simp
  have awaitReceiver (ch : GoChannel Node) (other : Node) (seq : Nat)
      (cancelled : Bool) :
      (channelSendAwaitReceiver ch other seq cancelled).2 ≠
        .waitingRoom message := by
    unfold channelSendAwaitReceiver
    split_ifs <;> simp [finish]
  have awaitSlot (ch : GoChannel Node) (other : Node)
      (cancelled : Bool) :
      (channelSendAwaitSlot ch other cancelled).2 ≠
        .waitingRoom message := by
    unfold channelSendAwaitSlot
    split_ifs <;> simp [finish, awaitReceiver]
  cases before with
  | marshalled other =>
    simp only [sendStep?, unbuffered, if_true, Option.some.injEq]
      at advance
    simpa [advance] using awaitSlot ch other false
  | waitingSlot other =>
    simp only [sendStep?, Option.some.injEq] at advance
    simpa [advance] using awaitSlot ch other input.cancelled
  | waitingReceiver other seq =>
    simp only [sendStep?, Option.some.injEq] at advance
    simpa [advance] using awaitReceiver ch other seq input.cancelled
  | waitingRoom other =>
    exact (notRoom other rfl).elim
  | _ =>
    simp only [sendStep?, Option.some.injEq, Prod.mk.injEq,
      reduceCtorEq] at advance
    all_goals
      rw [← advance.2]
      split <;> simp

theorem channelReceiveSlot_effect (ch : GoChannel Node) (cancelled : Bool) :
    ReceiveEffect ch
      (channelReceiveSlot ch cancelled).1
      (channelReceiveSlot ch cancelled).2 := by
  unfold channelReceiveSlot
  split
  · exact .quiet (by intro _ _ same; cases same)
  · split
    · exact .quiet (by intro _ _ same; cases same)
    · split
      · next message inSlot =>
          exact .take message inSlot
      · split <;> exact .quiet (by intro _ _ same; cases same)

theorem receiveStep?_effect {ch next : GoChannel Node} {cancelled : Bool}
    {before after : ReceiveState Node} (unbuffered : ch.capacity = 0)
    (advance : receiveStep? ch cancelled before = some (next, after)) :
    ReceiveEffect ch next after := by
  cases before with
  | called =>
    simp only [receiveStep?, Option.some.injEq, Prod.mk.injEq]
      at advance
    obtain ⟨rfl, rfl⟩ := advance
    split <;> exact .quiet (by intro _ _ same; cases same)
  | admitted =>
    simp only [receiveStep?, unbuffered, if_true, Option.some.injEq]
      at advance
    have effect := channelReceiveSlot_effect ch false
    rwa [advance] at effect
  | waiting =>
    simp only [receiveStep?, unbuffered, if_true, Option.some.injEq]
      at advance
    have effect := channelReceiveSlot_effect ch cancelled
    rwa [advance] at effect
  | returned message seq =>
    simp [receiveStep?] at advance
  | closedEmpty =>
    simp [receiveStep?] at advance
  | threw error =>
    simp [receiveStep?] at advance

/-! The invariant of every execution on an unbuffered channel. -/

/--
Published numbers are fresh and belong to one call each; the slot belongs to
the last publisher while its message waits; and the number of a pending call
was consumed exactly when one receive returned its message.
-/
structure RendezvousInvariant
    (ch : GoChannel Node) (published : Nat → Publication Node)
    (receives : Nat → ReceiveState Node) : Prop where
  slotSeq_eq : ch.slotSeq = ch.nextSeq
  consumed_le : ch.consumedSeq ≤ ch.nextSeq
  numbered :
    ∀ {call message seq},
      (published call).published? = some (message, seq) →
      0 < seq ∧ seq ≤ ch.nextSeq
  publishedOnce :
    ∀ {first second message other seq},
      (published first).published? = some (message, seq) →
      (published second).published? = some (other, seq) →
      first = second
  slotOwned :
    ∀ {message},
      ch.slot = some message →
      ch.closed = false ∧ ch.consumedSeq < ch.slotSeq ∧
        ∃ call, published call = .pending message ch.slotSeq
  pendingInSlot :
    ∀ {call message seq},
      published call = .pending message seq →
      ch.consumedSeq < seq →
      ch.closed = false →
      ch.slot = some message ∧ ch.slotSeq = seq
  receivedFrom :
    ∀ {receiver message seq},
      receives receiver = .returned message seq →
      seq ≤ ch.consumedSeq ∧
        ∃ call,
          published call = .pending message seq ∨
            published call = .completed message seq
  receivedOnce :
    ∀ {first second message other seq},
      receives first = .returned message seq →
      receives second = .returned other seq →
      first = second
  consumedReceived :
    ∀ {call message seq},
      published call = .pending message seq →
      seq ≤ ch.consumedSeq →
      ∃ receiver, receives receiver = .returned message seq
  completedReceived :
    ∀ {call message seq},
      published call = .completed message seq →
      ∃ receiver, receives receiver = .returned message seq

namespace RendezvousInvariant

variable
  {ch : GoChannel Node}
  {published : Nat → Publication Node}
  {receives : Nat → ReceiveState Node}

private theorem update_cases {call other : Nat}
    {next found : Publication Node}
    (lookup : Function.update published call next other = found) :
    (other = call ∧ next = found) ∨
      (other ≠ call ∧ published other = found) := by
  by_cases same : other = call
  · subst other
    exact Or.inl ⟨rfl, by simpa using lookup⟩
  · exact Or.inr ⟨same, by simpa [same] using lookup⟩

section

variable (invariant : RendezvousInvariant ch published receives)

include invariant

/-- Filling the free slot of an open channel under the next number. -/
theorem publish
    {call : Nat} (unpublished : published call = .unpublished)
    (message : Node) (isOpen : ch.closed = false)
    (slotFree : ch.slot = none) :
    RendezvousInvariant
      { ch with
        nextSeq := ch.nextSeq + 1
        slot := some message
        slotSeq := ch.nextSeq + 1 }
      (Function.update published call
        (.pending message (ch.nextSeq + 1)))
      receives where
  slotSeq_eq := rfl
  consumed_le := Nat.le_succ_of_le invariant.consumed_le
  numbered := by
    intro other found seq lookup
    by_cases same : other = call
    · subst other
      simp only [Function.update_self, Publication.published?,
        Option.some.injEq, Prod.mk.injEq] at lookup
      obtain ⟨_, rfl⟩ := lookup
      exact ⟨Nat.succ_pos _, Nat.le_refl _⟩
    · simp only [Function.update_of_ne same] at lookup
      have bounds := invariant.numbered lookup
      exact ⟨bounds.1, Nat.le_succ_of_le bounds.2⟩
  publishedOnce := by
    have fresh
        {other : Nat} {found : Node} {seq : Nat}
        (lookup : (published other).published? = some (found, seq)) :
        seq ≠ ch.nextSeq + 1 :=
      Nat.ne_of_lt (Nat.lt_succ_of_le (invariant.numbered lookup).2)
    intro first second found other seq firstEntry secondEntry
    by_cases firstIs : first = call <;>
      by_cases secondIs : second = call
    · rw [firstIs, secondIs]
    · subst first
      simp only [Function.update_self, Publication.published?,
        Option.some.injEq, Prod.mk.injEq] at firstEntry
      simp only [Function.update_of_ne secondIs] at secondEntry
      exact (fresh secondEntry firstEntry.2.symm).elim
    · subst second
      simp only [Function.update_self, Publication.published?,
        Option.some.injEq, Prod.mk.injEq] at secondEntry
      simp only [Function.update_of_ne firstIs] at firstEntry
      exact (fresh firstEntry secondEntry.2.symm).elim
    · simp only [Function.update_of_ne firstIs] at firstEntry
      simp only [Function.update_of_ne secondIs] at secondEntry
      exact invariant.publishedOnce firstEntry secondEntry
  slotOwned := by
    intro found inSlot
    obtain rfl : message = found := by simpa using inSlot
    exact ⟨isOpen, Nat.lt_succ_of_le invariant.consumed_le, call, by simp⟩
  pendingInSlot := by
    intro other found seq pending unconsumed stillOpen
    rcases update_cases pending with ⟨_, isNew⟩ | ⟨_, wasPending⟩
    · obtain ⟨rfl, rfl⟩ := Publication.pending.inj isNew
      exact ⟨rfl, rfl⟩
    · have inSlot :=
        (invariant.pendingInSlot wasPending unconsumed stillOpen).1
      simp [slotFree] at inSlot
  receivedFrom := by
    intro receiver found seq received
    obtain ⟨consumed, sender, publication⟩ :=
      invariant.receivedFrom received
    have notCall : sender ≠ call := by
      rintro rfl
      simp [unpublished] at publication
    exact ⟨consumed, sender, by
      simpa [Function.update_of_ne notCall] using publication⟩
  receivedOnce := invariant.receivedOnce
  consumedReceived := by
    intro other found seq pending consumed
    rcases update_cases pending with ⟨_, isNew⟩ | ⟨_, wasPending⟩
    · obtain ⟨_, rfl⟩ := Publication.pending.inj isNew
      exact absurd consumed
        (Nat.not_le.mpr (Nat.lt_succ_of_le invariant.consumed_le))
    · exact invariant.consumedReceived wasPending consumed
  completedReceived := by
    intro other found seq completed
    rcases update_cases completed with ⟨_, isNew⟩ | ⟨_, wasCompleted⟩
    · cases isNew
    · exact invariant.completedReceived wasCompleted

omit invariant in
private theorem published?_update {call : Nat} {next : Publication Node}
    (sameEntry : next.published? = (published call).published?)
    (other : Nat) :
    (Function.update published call next other).published? =
      (published other).published? := by
  by_cases same : other = call
  · subst other
    simpa using sameEntry
  · simp [same]

theorem complete
    {call : Nat} {message : Node} {seq : Nat}
    (pending : published call = .pending message seq)
    (consumed : seq ≤ ch.consumedSeq) :
    RendezvousInvariant ch
      (Function.update published call (.completed message seq))
      receives where
  slotSeq_eq := invariant.slotSeq_eq
  consumed_le := invariant.consumed_le
  numbered := by
    intro other found number lookup
    rw [published?_update (by rw [pending]; rfl)] at lookup
    exact invariant.numbered lookup
  publishedOnce := by
    intro first second found other number firstEntry secondEntry
    rw [published?_update (by rw [pending]; rfl)] at firstEntry secondEntry
    exact invariant.publishedOnce firstEntry secondEntry
  slotOwned := by
    intro found inSlot
    obtain ⟨isOpen, unconsumed, owner, owns⟩ :=
      invariant.slotOwned inSlot
    have notCall : owner ≠ call := by
      rintro rfl
      rw [pending] at owns
      obtain ⟨_, rfl⟩ := Publication.pending.inj owns
      exact absurd consumed (Nat.not_le.mpr unconsumed)
    exact ⟨isOpen, unconsumed, owner, by
      simpa [Function.update_of_ne notCall] using owns⟩
  pendingInSlot := by
    intro other found number stillPending
    rcases update_cases stillPending with ⟨_, isNew⟩ | ⟨_, wasPending⟩
    · cases isNew
    · exact invariant.pendingInSlot wasPending
  receivedFrom := by
    intro receiver found number received
    obtain ⟨numberConsumed, sender, publication⟩ :=
      invariant.receivedFrom received
    refine ⟨numberConsumed, sender, ?_⟩
    by_cases same : sender = call
    · subst sender
      simpa [pending] using publication
    · simpa [Function.update_of_ne same] using publication
  receivedOnce := invariant.receivedOnce
  consumedReceived := by
    intro other found number stillPending
    rcases update_cases stillPending with ⟨_, isNew⟩ | ⟨_, wasPending⟩
    · cases isNew
    · exact invariant.consumedReceived wasPending
  completedReceived := by
    intro other found number completed
    rcases update_cases completed with ⟨_, isNew⟩ | ⟨_, wasCompleted⟩
    · obtain ⟨rfl, rfl⟩ := Publication.completed.inj isNew
      exact invariant.consumedReceived pending consumed
    · exact invariant.completedReceived wasCompleted

theorem fail
    {call : Nat} {message : Node} {seq : Nat}
    (pending : published call = .pending message seq)
    (unconsumed : ch.consumedSeq < seq) :
    RendezvousInvariant
      { ch with slot := none }
      (Function.update published call (.failed message seq))
      receives where
  slotSeq_eq := invariant.slotSeq_eq
  consumed_le := invariant.consumed_le
  numbered := by
    intro other found number lookup
    rw [published?_update (by rw [pending]; rfl)] at lookup
    exact invariant.numbered lookup
  publishedOnce := by
    intro first second found other number firstEntry secondEntry
    rw [published?_update (by rw [pending]; rfl)] at firstEntry secondEntry
    exact invariant.publishedOnce firstEntry secondEntry
  slotOwned := by
    intro found inSlot
    cases inSlot
  pendingInSlot := by
    intro other found number stillPending numberUnconsumed isOpen
    rcases update_cases stillPending with
      ⟨_, isNew⟩ | ⟨notCall, wasPending⟩
    · cases isNew
    · -- Two pending calls of an open channel would both own the slot.
      have ownNumber :=
        (invariant.pendingInSlot pending unconsumed isOpen).2
      have otherNumber :=
        (invariant.pendingInSlot wasPending numberUnconsumed isOpen).2
      obtain rfl : seq = number := ownNumber.symm.trans otherNumber
      exact (notCall (invariant.publishedOnce
        (by rw [wasPending]; rfl) (by rw [pending]; rfl))).elim
  receivedFrom := by
    intro receiver found number received
    obtain ⟨consumed, sender, publication⟩ :=
      invariant.receivedFrom received
    have notCall : sender ≠ call := by
      rintro rfl
      simp only [pending, Publication.pending.injEq,
        reduceCtorEq, or_false] at publication
      obtain ⟨_, rfl⟩ := publication
      exact absurd consumed (Nat.not_le.mpr unconsumed)
    exact ⟨consumed, sender, by
      simpa [Function.update_of_ne notCall] using publication⟩
  receivedOnce := invariant.receivedOnce
  consumedReceived := by
    intro other found number stillPending
    rcases update_cases stillPending with ⟨_, isNew⟩ | ⟨_, wasPending⟩
    · cases isNew
    · exact invariant.consumedReceived wasPending
  completedReceived := by
    intro other found number completed
    rcases update_cases completed with ⟨_, isNew⟩ | ⟨_, wasCompleted⟩
    · cases isNew
    · exact invariant.completedReceived wasCompleted

theorem slot_eq_none_of_closed
    (isClosed : ch.closed = true) :
    ch.slot = none := by
  cases inSlot : ch.slot with
  | none =>
    rfl
  | some message =>
    have isOpen := (invariant.slotOwned inSlot).1
    simp [isClosed] at isOpen

/-- The critical section of a send preserves the invariant. -/
theorem send
    {call : Nat} {next : GoChannel Node} {before after : Publication Node}
    (stands : published call = before)
    (effect : SendEffect ch before next after) :
    RendezvousInvariant next
      (Function.update published call after) receives := by
  cases effect with
  | quiet =>
    rwa [← stands, Function.update_eq_self]
  | publish message isOpen slotFree =>
    exact invariant.publish stands message isOpen slotFree
  | complete message seq consumed =>
    exact invariant.complete stands consumed
  | withdraw message seq unconsumed =>
    exact invariant.fail stands unconsumed
  | abandon message seq unconsumed gone =>
    -- An open channel still holds the message of a pending call.
    have isClosed : ch.closed = true := by
      rcases gone with isClosed | notOwn
      · exact isClosed
      · by_contra stillOpen
        have own :=
          invariant.pendingInSlot stands unconsumed
            (by simpa using stillOpen)
        exact notOwn ⟨by simp [own.1], own.2⟩
    have emptied : { ch with slot := none } = ch := by
      rw [← invariant.slot_eq_none_of_closed isClosed]
    have failed := invariant.fail stands unconsumed
    rwa [emptied] at failed

theorem congr_receives
    {others : Nat → ReceiveState Node}
    (same :
      ∀ receiver message seq,
        others receiver = .returned message seq ↔
          receives receiver = .returned message seq) :
    RendezvousInvariant ch published others where
  slotSeq_eq := invariant.slotSeq_eq
  consumed_le := invariant.consumed_le
  numbered := invariant.numbered
  publishedOnce := invariant.publishedOnce
  slotOwned := invariant.slotOwned
  pendingInSlot := invariant.pendingInSlot
  receivedFrom received :=
    invariant.receivedFrom ((same _ _ _).mp received)
  receivedOnce firstReceived secondReceived :=
    invariant.receivedOnce
      ((same _ _ _).mp firstReceived)
      ((same _ _ _).mp secondReceived)
  consumedReceived pending consumed :=
    (invariant.consumedReceived pending consumed).imp
      fun _ => (same _ _ _).mpr
  completedReceived completed :=
    (invariant.completedReceived completed).imp
      fun _ => (same _ _ _).mpr

theorem take
    {receiver : Nat}
    (running :
      ∀ message seq, receives receiver ≠ .returned message seq)
    {message : Node} (inSlot : ch.slot = some message) :
    RendezvousInvariant
      { ch with consumedSeq := ch.slotSeq, slot := none }
      published
      (Function.update receives receiver
        (.returned message ch.slotSeq)) := by
  obtain ⟨isOpen, unconsumed, owner, owns⟩ := invariant.slotOwned inSlot
  have kept
      {other : Nat} {found : Node} {seq : Nat}
      (received : receives other = .returned found seq) :
      Function.update receives receiver
        (.returned message ch.slotSeq) other =
          .returned found seq := by
    have notReceiver : other ≠ receiver := by
      rintro rfl
      exact running found seq received
    rw [Function.update_of_ne notReceiver, received]
  -- No earlier receive consumed the number that is consumed now.
  have fresh
      {other : Nat} {found : Node} {seq : Nat}
      (received : receives other = .returned found seq) :
      seq ≠ ch.slotSeq :=
    Nat.ne_of_lt
      ((invariant.receivedFrom received).1.trans_lt unconsumed)
  exact {
    slotSeq_eq := invariant.slotSeq_eq
    consumed_le := Nat.le_of_eq invariant.slotSeq_eq
    numbered := invariant.numbered
    publishedOnce := invariant.publishedOnce
    slotOwned := by
      intro found inSlot
      cases inSlot
    pendingInSlot := by
      intro call found seq pending unconsumedNow
      have entry :
          (published call).published? = some (found, seq) := by
        rw [pending]
        rfl
      have bound := (invariant.numbered entry).2
      rw [← invariant.slotSeq_eq] at bound
      exact absurd bound (Nat.not_le.mpr unconsumedNow)
    receivedFrom := by
      intro other found seq received
      by_cases same : other = receiver
      · subst other
        simp only [Function.update_self,
          ReceiveState.returned.injEq] at received
        obtain ⟨rfl, rfl⟩ := received
        exact ⟨Nat.le_refl _, owner, Or.inl owns⟩
      · rw [Function.update_of_ne same] at received
        obtain ⟨consumed, sender⟩ := invariant.receivedFrom received
        exact ⟨consumed.trans unconsumed.le, sender⟩
    receivedOnce := by
      intro first second found other seq firstReceived secondReceived
      by_cases firstIs : first = receiver <;>
        by_cases secondIs : second = receiver
      · rw [firstIs, secondIs]
      · subst first
        simp only [Function.update_self,
          ReceiveState.returned.injEq] at firstReceived
        rw [Function.update_of_ne secondIs] at secondReceived
        exact (fresh secondReceived firstReceived.2.symm).elim
      · subst second
        simp only [Function.update_self,
          ReceiveState.returned.injEq] at secondReceived
        rw [Function.update_of_ne firstIs] at firstReceived
        exact (fresh firstReceived secondReceived.2.symm).elim
      · rw [Function.update_of_ne firstIs] at firstReceived
        rw [Function.update_of_ne secondIs] at secondReceived
        exact invariant.receivedOnce firstReceived secondReceived
    consumedReceived := by
      intro call found seq pending consumed
      by_cases consumedBefore : seq ≤ ch.consumedSeq
      · obtain ⟨other, received⟩ :=
          invariant.consumedReceived pending consumedBefore
        exact ⟨other, kept received⟩
      · obtain ⟨filled, number⟩ :=
          invariant.pendingInSlot pending
            (Nat.lt_of_not_le consumedBefore) isOpen
        rw [inSlot] at filled
        obtain rfl : message = found := Option.some.inj filled
        exact ⟨receiver, by simp [number]⟩
    completedReceived := by
      intro call found seq completed
      obtain ⟨other, received⟩ :=
        invariant.completedReceived completed
      exact ⟨other, kept received⟩ }

/-- The critical section of a receive preserves the invariant. -/
theorem receive
    {receiver : Nat}
    (running :
      ∀ message seq, receives receiver ≠ .returned message seq)
    {next : GoChannel Node} {after : ReceiveState Node}
    (effect : ReceiveEffect ch next after) :
    RendezvousInvariant next published
      (Function.update receives receiver after) := by
  cases effect with
  | quiet notReturned =>
    apply invariant.congr_receives
    intro other message seq
    by_cases same : other = receiver
    · subst other
      simp [notReturned message seq, running message seq]
    · rw [Function.update_of_ne same]
  | take message inSlot =>
    exact invariant.take running inSlot

/-- Closing empties the slot and leaves every pending send to fail. -/
theorem close :
    RendezvousInvariant
      { ch with closed := true, slot := none }
      published receives where
  slotSeq_eq := invariant.slotSeq_eq
  consumed_le := invariant.consumed_le
  numbered := invariant.numbered
  publishedOnce := invariant.publishedOnce
  slotOwned := by
    intro message inSlot
    cases inSlot
  pendingInSlot := by
    intro call message seq pending unconsumed isOpen
    cases isOpen
  receivedFrom := invariant.receivedFrom
  receivedOnce := invariant.receivedOnce
  consumedReceived := invariant.consumedReceived
  completedReceived := invariant.completedReceived

end

end RendezvousInvariant

/-! Executions of an unbuffered channel. -/

/-- The invariant of the channel and of all the calls made on it. -/
structure ChannelState.Rendezvous (state : ChannelState Node) : Prop where
  unbuffered : state.channel.capacity = 0
  notRoom : ∀ call message, state.sends call ≠ .waitingRoom message
  protocol :
    RendezvousInvariant state.channel
      (fun call => (state.sends call).publication)
      state.receives

private theorem rendezvous_initial {state : ChannelState Node}
    (isInitial : (channelSystem Node 0).initial state) :
    state.Rendezvous := by
  obtain rfl : state = .fresh Node 0 := isInitial
  refine ⟨rfl, by simp [ChannelState.fresh], ?_⟩
  constructor <;> intros <;>
    simp_all [ChannelState.fresh, SendState.publication,
      Publication.published?]

/-- Every critical section on an unbuffered channel keeps the invariant. -/
private theorem rendezvous_step {state next : ChannelState Node}
    {event : ChannelEvent Node} (invariant : state.Rendezvous)
    (step : (channelSystem Node 0).step state event next) :
    next.Rendezvous := by
  obtain ⟨unbuffered, notRoom, protocol⟩ := invariant
  rcases channelStep_cases step with
    ⟨call, input, ch, after, advance, rfl, rfl⟩ |
    ⟨receiver, cancelled, ch, after, advance, rfl, rfl⟩ |
    ⟨rfl, rfl⟩
  · have effect :=
      sendStep?_effect unbuffered protocol.consumed_le
        (fun message seq waiting => by
          have entry :
              (state.sends call).publication.published? =
                some (message, seq) := by
            rw [waiting]
            rfl
          exact (protocol.numbered entry).1)
        (notRoom call) advance
    have published :
        (fun other =>
            (Function.update state.sends call after other).publication) =
          Function.update
            (fun other => (state.sends other).publication)
            call after.publication := by
      funext other
      by_cases same : other = call
      · simp [same]
      · simp [same]
    refine ⟨effect.capacity_eq.trans unbuffered, ?_, ?_⟩
    · intro other message
      by_cases same : other = call
      · subst other
        simpa using
          sendStep?_ne_waitingRoom unbuffered (notRoom call)
            advance message
      · simpa [same] using notRoom other message
    · rw [published]
      exact protocol.send rfl effect
  · have effect := receiveStep?_effect unbuffered advance
    have running (message : Node) (seq : Nat) :
        state.receives receiver ≠ .returned message seq := by
      intro returned
      simp [returned, receiveStep?] at advance
    exact ⟨effect.capacity_eq.trans unbuffered, notRoom,
      protocol.receive running effect⟩
  · by_cases isClosed : state.channel.closed = true
    · simpa [channelClose, isClosed] using
        (⟨unbuffered, notRoom, protocol⟩ : state.Rendezvous)
    · have closes :
          (channelClose state.channel).1 =
            { state.channel with closed := true, slot := none } := by
        simp [channelClose, isClosed, unbuffered]
      refine ⟨?_, notRoom, ?_⟩
      · rw [closes]
        exact unbuffered
      · rw [closes]
        exact protocol.close

theorem rendezvous_of_execution {trace : List (ChannelEvent Node)}
    {state : ChannelState Node}
    (execution : (channelSystem Node 0).Execution trace state) :
    state.Rendezvous :=
  execution.invariant
    (fun _ state => state.Rendezvous)
    rendezvous_initial
    rendezvous_step

namespace ChannelState.Rendezvous

variable {state : ChannelState Node}

section

variable (invariant : state.Rendezvous)

include invariant

theorem sender_unique
    {first second receiver : Nat}
    (firstDelivers : state.Delivers first receiver)
    (secondDelivers : state.Delivers second receiver) :
    first = second := by
  obtain ⟨message, seq, firstEntry, received⟩ := firstDelivers
  obtain ⟨other, number, secondEntry, alsoReceived⟩ := secondDelivers
  rw [received] at alsoReceived
  obtain ⟨rfl, rfl⟩ := ReceiveState.returned.inj alsoReceived
  exact invariant.protocol.publishedOnce firstEntry secondEntry

theorem receiver_unique
    {call first second : Nat} (firstDelivers : state.Delivers call first)
    (secondDelivers : state.Delivers call second) :
    first = second := by
  obtain ⟨message, seq, entry, firstReceived⟩ := firstDelivers
  obtain ⟨other, number, sameEntry, secondReceived⟩ := secondDelivers
  rw [entry] at sameEntry
  obtain ⟨rfl, rfl⟩ := Prod.mk.inj (Option.some.inj sameEntry)
  exact invariant.protocol.receivedOnce firstReceived secondReceived

theorem not_delivers_of_threw {call : Nat}
    (threw : (state.sends call).Threw) (receiver : Nat) :
    ¬ state.Delivers call receiver := by
  rintro ⟨message, seq, entry, received⟩
  obtain ⟨_, sender, publication⟩ :=
    invariant.protocol.receivedFrom received
  have senderEntry :
      (state.sends sender).publication.published? =
        some (message, seq) := by
    rcases publication with pending | completed
    · rw [pending]
      rfl
    · rw [completed]
      rfl
  obtain rfl : sender = call :=
    invariant.protocol.publishedOnce senderEntry entry
  obtain ⟨error, published, number, stands⟩ := threw
  rw [stands] at publication
  cases published with
  | none =>
    simp [SendState.publication] at publication
  | some value =>
    simp only [SendState.publication] at publication
    split at publication <;> simp at publication

theorem delivers_of_returned {call : Nat}
    (returned : (state.sends call).Returned) :
    ∃! receiver, state.Delivers call receiver := by
  obtain ⟨message, seq, stands⟩ := returned
  have completed :
      (state.sends call).publication = .completed message seq := by
    rw [stands]
    rfl
  obtain ⟨receiver, received⟩ :=
    invariant.protocol.completedReceived completed
  have delivers : state.Delivers call receiver :=
    ⟨message, seq, by rw [stands]; rfl, received⟩
  exact ⟨receiver, delivers, fun other otherDelivers =>
    invariant.receiver_unique otherDelivers delivers⟩

theorem sender_of_received {receiver : Nat}
    {message : Node} {seq : Nat}
    (received : state.receives receiver = .returned message seq) :
    ∃ call, state.Delivers call receiver := by
  obtain ⟨_, call, publication⟩ :=
    invariant.protocol.receivedFrom received
  refine ⟨call, message, seq, ?_, received⟩
  rcases publication with pending | completed
  · rw [pending]
    rfl
  · rw [completed]
    rfl

/-- A send that still waits although its message was received returns next. -/
theorem returns_of_delivers
    {call receiver : Nat} (delivers : state.Delivers call receiver)
    {input : SendInput Node} {ch : GoChannel Node} {after : SendState Node}
    (advance :
      sendStep? state.channel input (state.sends call) =
        some (ch, after)) :
    after.Returned := by
  obtain ⟨message, seq, entry, received⟩ := delivers
  obtain ⟨consumed, _⟩ := invariant.protocol.receivedFrom received
  have published := (invariant.protocol.numbered entry).1
  cases stands : state.sends call with
  | waitingReceiver own number =>
    rw [stands] at entry advance
    simp only [SendState.publication, Publication.published?,
      Option.some.injEq, Prod.mk.injEq] at entry
    obtain ⟨rfl, rfl⟩ := entry
    have stays : ¬ state.channel.consumedSeq < number :=
      Nat.not_lt.mpr consumed
    simp only [sendStep?, channelSendAwaitReceiver, stays,
      false_and, and_false, if_false, Option.some.injEq,
      Prod.mk.injEq] at advance
    refine ⟨own, number, ?_⟩
    rw [← advance.2]
    exact channelSendFinish_consumed own input.cancelled
      invariant.unbuffered published consumed
  | returned own number =>
    simp [stands, sendStep?] at advance
  | threw error own number =>
    simp [stands, sendStep?] at advance
  | _ =>
    simp [stands, SendState.publication, Publication.published?] at entry

theorem owner_unique {first second : Nat}
    (firstOwns : state.OwnsSlot first) (secondOwns : state.OwnsSlot second) :
    first = second := by
  obtain ⟨message, _, firstStands⟩ := firstOwns
  obtain ⟨other, _, secondStands⟩ := secondOwns
  have firstEntry :
      (state.sends first).publication.published? =
        some (message, state.channel.slotSeq) := by
    rw [firstStands]
    rfl
  have secondEntry :
      (state.sends second).publication.published? =
        some (other, state.channel.slotSeq) := by
    rw [secondStands]
    rfl
  exact invariant.protocol.publishedOnce firstEntry secondEntry

end

end ChannelState.Rendezvous

end DeveloperDashboard.GoRoutine
