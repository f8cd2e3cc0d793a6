import DeveloperDashboard.Collector.CronLoop

namespace DeveloperDashboard.Collector

open Library Perl Config

/-!
# Cron slots

The first tick in a slot marks it, and then starts a worker unless there are
enough of them.  The mark survives as long as the clock does not return to an
older slot and no worker puts an older record back.
-/

def CronEvent.startsIn (slot : Text) : CronEvent → Bool
  | .started other _ => other == slot
  | _ => false

def CronEvent.settles (slot : Text) : CronEvent → Bool
  | .started other _ => other == slot
  | .failed other => other == slot
  | .busy other _ => other == slot
  | _ => false

/--
How many events of a kind there were in a slot; the slot that the state file
brings along counts as settled by the loop before.
-/
def slotCount (kind : Text → CronEvent → Bool) (file : Option ConfigHash)
    (trace : List CronEvent) (slot : Text) :
    Nat :=
  (startedLoop file).marked.count slot + trace.countP (kind slot)

def LoopPhase.settling : LoopPhase → Option Text
  | .toWrite _ (.run slot) => some slot
  | .writing _ _ (.run slot) => some slot
  | .due slot => some slot
  | _ => none

/--
Every slot has at most one worker.  A tick that finds its slot unmarked goes on
to a start, unless the workers are as many as there may be, and a tick that
finds it marked comes after that.
-/
structure SettlesSlotsOnce
    (collector : CronCollector) (file : Option ConfigHash)
    (trace : List CronEvent) (loop : CronLoop) : Prop where
  once : ∀ slot, slotCount CronEvent.startsIn file trace slot ≤ 1
  found :
    ∀ slot, .found slot ∈ trace →
      0 < slotCount CronEvent.settles file trace slot ∨
        loop.phase.settling = some slot
  full :
    ∀ slot active, .busy slot active ∈ trace →
      collector.settings.multiple ≤ active
  skips :
    ∀ earlier slot active later,
      trace = earlier ++ .skipped slot active :: later →
      0 < slotCount CronEvent.settles file earlier slot

/-- A tick with room starts a worker in every slot that has none. -/
def RunsEverySlot (collector : CronCollector) (file : Option ConfigHash)
    (trace : List CronEvent) : Prop :=
  (∀ slot, slotCount CronEvent.startsIn file trace slot ≤ 1) ∧
    ∀ earlier slot active later,
      trace = earlier ++ .skipped slot active :: later →
      active < collector.settings.multiple →
      0 < slotCount CronEvent.startsIn file earlier slot

/--
The clock does not return to a slot after another one, and a worker puts no
older slot back.
-/
def inOrder (loop : CronLoop) : CronEvent → Bool
  | .inSlot slot =>
    !loop.marked.contains slot || loop.marked.head? == some slot
  | .replaced pid =>
    match loop.workers.lookup pid with
    | some (.reporting existing _) =>
      decide (lastCronSlot existing = lastCronSlot loop.state)
    | _ => true
  | _ => true

variable {slot : Text}

theorem head?_marked_of_inOrder {loop : CronLoop}
    (ordered : inOrder loop (.inSlot slot) = true)
    (isMarked : slot ∈ loop.marked) :
    loop.marked.head? = some slot := by
  rw [inOrder, List.contains_iff_mem.mpr isMarked, Bool.not_true,
    Bool.false_or, beq_iff_eq] at ordered
  exact ordered

def FieldsFit (marked : List Text) (fields : ConfigHash) :
    AfterWrite → Prop
  | .run slot =>
    Perl.isTrue slot = true ∧ slot ∉ marked ∧ fields = slotFields slot
  | _ => "last_cron_slot" ∉ fields.map Prod.fst

def PhaseFits (marked : List Text) (last : Text) : LoopPhase → Prop
  | .toWrite fields next => FieldsFit marked fields next
  | .writing existing fields next =>
    lastCronSlot existing = last ∧ FieldsFit marked fields next
  | .comparing slot =>
    Perl.isTrue slot = true ∧
      (slot ∈ marked → marked.head? = some slot)
  | .due slot => slot ∈ marked
  | _ => True

def CronWorkerPhase.Fits : CronWorkerPhase → Prop
  | .toReport fields => "last_cron_slot" ∉ fields.map Prod.fst
  | .reporting _ fields => "last_cron_slot" ∉ fields.map Prod.fst
  | _ => True

/-- The state file has the slot that was marked last. -/
structure FileFits (loop : CronLoop) : Prop where
  marker : lastCronSlot loop.state = loop.marked.headD []
  phase : PhaseFits loop.marked (lastCronSlot loop.state) loop.phase
  workers : ∀ worker ∈ loop.workers, worker.2.Fits

/-- The slot in which a worker is about to be started. -/
def pendingSlot : LoopPhase → Option Text
  | .due slot => some slot
  | _ => none

/-- Every marked slot is settled, unless it is still due. -/
structure SlotsFit
    (collector : CronCollector) (file : Option ConfigHash)
    (trace : List CronEvent) (loop : CronLoop) : Prop where
  settled :
    ∀ slot,
      slotCount CronEvent.settles file trace slot =
        if slot ∈ loop.marked ∧ pendingSlot loop.phase ≠ some slot then 1
        else 0
  found :
    ∀ slot, .found slot ∈ trace →
      slot ∈ loop.marked ∨ loop.phase.settling = some slot
  full :
    ∀ slot active, .busy slot active ∈ trace →
      collector.settings.multiple ≤ active
  skips :
    ∀ earlier slot active later,
      trace = earlier ++ .skipped slot active :: later →
      0 < slotCount CronEvent.settles file earlier slot

section

variable {collector : CronCollector} {loop next : CronLoop}
  {event : CronEvent} {action : CronAction}

/-- What a step of a worker, or a reaping, leaves alone. -/
structure WorkerStep (loop next : CronLoop) : Prop where
  phase : next.phase = loop.phase
  marked : next.marked = loop.marked
  slot : lastCronSlot next.state = lastCronSlot loop.state
  workers : ∀ worker ∈ next.workers, worker.2.Fits

theorem FileFits.of_workerStep
    (fits : FileFits loop) (step : WorkerStep loop next) :
    FileFits next where
  marker := by
    rw [step.slot, step.marked]
    exact fits.marker
  phase := by
    rw [step.phase, step.marked, step.slot]
    exact fits.phase
  workers := step.workers

theorem fits_of_mem_store {workers : Entries Nat CronWorkerPhase}
    (fits : ∀ worker ∈ workers, worker.2.Fits)
    {pid : Nat} {phase : CronWorkerPhase} (isFit : phase.Fits) :
    ∀ worker ∈ workers.store pid phase, worker.2.Fits := by
  intro worker member
  rcases Entries.mem_store member with before | stored
  · exact fits worker before
  · rw [stored]
    exact isFit

/-- A step in which a worker takes part keeps the slots in order. -/
theorem workerStep_of_next (fits : FileFits loop)
    (advance : nextCron collector loop action = some (event, next))
    (ordered : inOrder loop event = true)
    (isWorker :
      (∃ pid, action = .reap pid) ∨ (∃ pid, action = .finish pid) ∨
        (∃ pid error heartbeat, action = .fail pid error heartbeat) ∨
          (∃ pid, action = .workerRead pid) ∨
            ∃ pid, action = .workerRename pid) :
    WorkerStep loop next ∧
      (event = .quiet ∨ ∃ pid, event = .replaced pid) := by
  rcases isWorker with ⟨pid, rfl⟩ | ⟨pid, rfl⟩ |
    ⟨pid, error, heartbeat, rfl⟩ | ⟨pid, rfl⟩ | ⟨pid, rfl⟩
  · simp only [nextCron] at advance
    split at advance
    · obtain ⟨rfl, rfl⟩ := by simpa using advance
      refine ⟨⟨rfl, rfl, rfl, ?_⟩, .inl rfl⟩
      exact fun worker member =>
        fits.workers worker (List.mem_of_mem_filter member)
    · contradiction
  · simp only [nextCron] at advance
    split at advance
    · obtain ⟨rfl, rfl⟩ := by simpa using advance
      exact ⟨⟨rfl, rfl, rfl, fits_of_mem_store fits.workers trivial⟩,
        .inl rfl⟩
    · contradiction
  · simp only [nextCron] at advance
    split at advance
    · obtain ⟨rfl, rfl⟩ := by simpa using advance
      refine ⟨⟨rfl, rfl, rfl, fits_of_mem_store fits.workers ?_⟩, .inl rfl⟩
      show "last_cron_slot" ∉ (workerErrorFields _ _ _).map Prod.fst
      simp [workerErrorFields]
    · contradiction
  · simp only [nextCron] at advance
    split at advance
    · next fields found =>
        obtain ⟨rfl, rfl⟩ := by simpa using advance
        refine ⟨⟨rfl, rfl, rfl, fits_of_mem_store fits.workers ?_⟩, .inl rfl⟩
        exact fits.workers _ (Entries.mem_of_lookup found)
    · contradiction
  · simp only [nextCron] at advance
    split at advance
    · next existing fields found =>
        obtain ⟨rfl, rfl⟩ := by simpa using advance
        refine ⟨⟨rfl, rfl, ?_, fits_of_mem_store fits.workers trivial⟩,
          .inr ⟨pid, rfl⟩⟩
        have absent : "last_cron_slot" ∉ fields.map Prod.fst :=
          fits.workers _ (Entries.mem_of_lookup found)
        have same : lastCronSlot existing = lastCronSlot loop.state := by
          rw [inOrder, found] at ordered
          exact of_decide_eq_true ordered
        show lastCronSlot (mergeLoopState _ existing fields) = _
        rw [lastCronSlot_mergeLoopState absent, same]
    · contradiction

theorem fits_of_mem_reapFinished
    (fits : ∀ worker ∈ loop.workers, worker.2.Fits) :
    ∀ worker ∈ loop.reapFinished.workers, worker.2.Fits :=
  fun worker member => fits worker (List.mem_of_mem_filter member)

theorem FileFits.step (fits : FileFits loop)
    (advance : nextCron collector loop action = some (event, next))
    (ordered : inOrder loop event = true) :
    FileFits next := by
  obtain ⟨marker, phase, workers⟩ := fits
  cases action with
  | tick heartbeat =>
    simp only [nextCron] at advance
    split at advance
    · obtain ⟨rfl, rfl⟩ := by simpa using advance
      exact ⟨marker, slot_notMem_runningFields _ _ _ _,
        fits_of_mem_reapFinished workers⟩
    · contradiction
  | read =>
    simp only [nextCron] at advance
    split at advance
    · next fields after isPhase =>
        obtain ⟨rfl, rfl⟩ := by simpa using advance
        rw [isPhase] at phase
        exact ⟨marker, ⟨rfl, phase⟩, workers⟩
    · contradiction
  | rename =>
    simp only [nextCron] at advance
    split at advance
    · next existing fields after isPhase =>
        obtain ⟨rfl, rfl⟩ := by simpa using advance
        rw [isPhase] at phase
        obtain ⟨same, fieldsFit⟩ := phase
        have keeps :
            "last_cron_slot" ∉ fields.map Prod.fst →
              lastCronSlot
                  (mergeLoopState collector.settings.name existing
                    fields) =
                loop.marked.headD [] := by
          intro absent
          rw [lastCronSlot_mergeLoopState absent, same, marker]
        cases after with
        | decide => exact ⟨keeps fieldsFit, trivial, workers⟩
        | sleep => exact ⟨keeps fieldsFit, trivial, workers⟩
        | run slot =>
          obtain ⟨true_, -, rfl⟩ := fieldsFit
          exact ⟨lastCronSlot_mergeLoopState_slot true_ _ _,
            List.mem_cons_self, workers⟩
    · contradiction
  | readClock now =>
    simp only [nextCron] at advance
    split at advance
    · split at advance
      · obtain ⟨rfl, rfl⟩ := by simpa using advance
        exact ⟨marker,
          ⟨isTrue_slotStamp now, head?_marked_of_inOrder ordered⟩,
          workers⟩
      · obtain ⟨rfl, rfl⟩ := by simpa using advance
        exact ⟨marker, trivial, workers⟩
    · contradiction
  | compare =>
    simp only [nextCron] at advance
    split at advance
    · next slot isPhase =>
        rw [isPhase] at phase
        split at advance
        · obtain ⟨rfl, rfl⟩ := by simpa using advance
          exact ⟨marker, trivial, workers⟩
        · next different =>
            obtain ⟨rfl, rfl⟩ := by simpa using advance
            refine ⟨marker, ⟨phase.1, ?_, rfl⟩, workers⟩
            -- a marked slot would be the last one, and the file has it
            intro isMarked
            refine different ?_
            rw [marker, List.headD_eq_head?_getD, phase.2 isMarked]
            rfl
    · contradiction
  | start pid =>
    simp only [nextCron] at advance
    split at advance
    · split at advance
      · obtain ⟨rfl, rfl⟩ := by simpa using advance
        refine ⟨marker, ?_, ?_⟩
        · show "last_cron_slot" ∉ (workerFields _).map Prod.fst
          simp [workerFields]
        · intro worker member
          rcases List.mem_append.mp member with before | new
          · exact workers worker before
          · rw [List.mem_singleton.mp new]
            trivial
      · contradiction
    · contradiction
  | failStart error heartbeat =>
    simp only [nextCron] at advance
    split at advance
    · split at advance
      · obtain ⟨rfl, rfl⟩ := by simpa using advance
        exact ⟨marker, slot_notMem_failedStartFields _ _ _ _, workers⟩
      · contradiction
    · contradiction
  | pass =>
    simp only [nextCron] at advance
    split at advance
    · split at advance
      · contradiction
      · obtain ⟨rfl, rfl⟩ := by simpa using advance
        exact ⟨marker, trivial, workers⟩
    · contradiction
  | reap pid =>
    exact FileFits.of_workerStep ⟨marker, phase, workers⟩
      (workerStep_of_next ⟨marker, phase, workers⟩ advance ordered
        (.inl ⟨pid, rfl⟩)).1
  | finish pid =>
    exact FileFits.of_workerStep ⟨marker, phase, workers⟩
      (workerStep_of_next ⟨marker, phase, workers⟩ advance ordered
        (.inr (.inl ⟨pid, rfl⟩))).1
  | fail pid error heartbeat =>
    exact FileFits.of_workerStep ⟨marker, phase, workers⟩
      (workerStep_of_next ⟨marker, phase, workers⟩ advance ordered
        (.inr (.inr (.inl ⟨pid, error, heartbeat, rfl⟩)))).1
  | workerRead pid =>
    exact FileFits.of_workerStep ⟨marker, phase, workers⟩
      (workerStep_of_next ⟨marker, phase, workers⟩ advance ordered
        (.inr (.inr (.inr (.inl ⟨pid, rfl⟩))))).1
  | workerRename pid =>
    exact FileFits.of_workerStep ⟨marker, phase, workers⟩
      (workerStep_of_next ⟨marker, phase, workers⟩ advance ordered
        (.inr (.inr (.inr (.inr ⟨pid, rfl⟩))))).1

theorem slotCount_snoc
    {kind : Text → CronEvent → Bool} {file : Option ConfigHash}
    {trace : List CronEvent} :
    slotCount kind file (trace ++ [event]) slot =
      slotCount kind file trace slot +
        if kind slot event = true then 1 else 0 := by
  rw [slotCount, slotCount, List.countP_append, List.countP_singleton,
    Nat.add_assoc]

theorem startsIn_le_settles
    (file : Option ConfigHash) (trace : List CronEvent) (slot : Text) :
    slotCount CronEvent.startsIn file trace slot ≤
      slotCount CronEvent.settles file trace slot := by
  apply Nat.add_le_add_left
  apply List.countP_mono_left
  intro event _ starts
  cases event with
  | started other pid => exact starts
  | _ => contradiction

structure SlotStep
    (collector : CronCollector) (loop : CronLoop) (event : CronEvent)
    (next : CronLoop) : Prop where
  settled :
    ∀ slot,
      (if slot ∈ next.marked ∧ pendingSlot next.phase ≠ some slot then 1
        else 0) =
        (if slot ∈ loop.marked ∧ pendingSlot loop.phase ≠ some slot then 1
          else 0) +
          if event.settles slot = true then 1 else 0
  kept :
    ∀ slot, slot ∈ loop.marked ∨ loop.phase.settling = some slot →
      slot ∈ next.marked ∨ next.phase.settling = some slot
  found :
    ∀ slot, event = .found slot →
      slot ∈ next.marked ∨ next.phase.settling = some slot
  full :
    ∀ slot active, event = .busy slot active →
      collector.settings.multiple ≤ active
  skips :
    ∀ slot active, event = .skipped slot active →
      slot ∈ loop.marked ∧ pendingSlot loop.phase = none

/-- A step that changes neither the marks nor what is due. -/
theorem SlotStep.quiet (marked : next.marked = loop.marked)
    (pending : pendingSlot next.phase = pendingSlot loop.phase)
    (settling :
      ∀ slot, loop.phase.settling = some slot →
        next.phase.settling = some slot)
    (isQuiet :
      event = .quiet ∨ (∃ slot, event = .inSlot slot) ∨
        ∃ pid, event = .replaced pid) :
    SlotStep collector loop event next where
  settled := by
    intro slot
    rw [marked, pending]
    rcases isQuiet with rfl | ⟨other, rfl⟩ | ⟨pid, rfl⟩
    · rfl
    · rfl
    · rfl
  kept := by
    rintro slot (isMarked | settles)
    · exact .inl (marked ▸ isMarked)
    · exact .inr (settling slot settles)
  found := by
    rintro slot rfl
    rcases isQuiet with same | ⟨other, same⟩ | ⟨pid, same⟩
    · contradiction
    · contradiction
    · contradiction
  full := by
    rintro slot active rfl
    rcases isQuiet with same | ⟨other, same⟩ | ⟨pid, same⟩
    · contradiction
    · contradiction
    · contradiction
  skips := by
    rintro slot active rfl
    rcases isQuiet with same | ⟨other, same⟩ | ⟨pid, same⟩
    · contradiction
    · contradiction
    · contradiction

theorem SlotStep.mark (settling : loop.phase.settling = some slot)
    (none_ : pendingSlot loop.phase = none) (fresh : slot ∉ loop.marked)
    (marked : next.marked = slot :: loop.marked)
    (phase : next.phase = .due slot) :
    SlotStep collector loop .quiet next where
  settled := by
    intro other
    rw [marked, phase, none_]
    by_cases same : slot = other
    · subst same
      simp [fresh, pendingSlot, CronEvent.settles]
    · simp [same, Ne.symm same, pendingSlot, CronEvent.settles]
  kept := by
    rintro other (isMarked | settles)
    · exact .inl (marked ▸ List.mem_cons_of_mem slot isMarked)
    · rw [settling, Option.some.injEq] at settles
      exact .inl (by rw [marked, settles]; exact List.mem_cons_self)
  found := nofun
  full := nofun
  skips := nofun

theorem SlotStep.settle
    (due : loop.phase = .due slot) (isMarked : slot ∈ loop.marked)
    (marked : next.marked = loop.marked)
    (none_ : pendingSlot next.phase = none)
    (settles :
      (∃ pid, event = .started slot pid) ∨ event = .failed slot ∨
        ∃ active, event = .busy slot active ∧
          collector.settings.multiple ≤ active) :
    SlotStep collector loop event next where
  settled := by
    intro other
    have isSettled :
        event.settles other = (slot == other) := by
      rcases settles with ⟨pid, rfl⟩ | rfl | ⟨active, rfl, -⟩
      · rfl
      · rfl
      · rfl
    rw [marked, due, none_, isSettled]
    by_cases same : slot = other
    · subst same
      simp [isMarked, pendingSlot]
    · simp [same, pendingSlot]
  kept := by
    rintro other (before | settling)
    · exact .inl (marked ▸ before)
    · rw [due] at settling
      rw [← Option.some.inj settling, marked]
      exact .inl isMarked
  found := by
    rintro other rfl
    rcases settles with ⟨pid, same⟩ | same | ⟨active, same, -⟩
    · contradiction
    · contradiction
    · contradiction
  full := by
    rintro other active rfl
    rcases settles with ⟨pid, same⟩ | same | ⟨active, same, full⟩
    · contradiction
    · contradiction
    · cases same
      exact full
  skips := by
    rintro other active rfl
    rcases settles with ⟨pid, same⟩ | same | ⟨active, same, -⟩
    · contradiction
    · contradiction
    · contradiction

theorem slotStep_of_next (fits : FileFits loop)
    (advance : nextCron collector loop action = some (event, next))
    (ordered : inOrder loop event = true) :
    SlotStep collector loop event next := by
  have worker :
      WorkerStep loop next ∧ (event = .quiet ∨ ∃ pid, event = .replaced pid) →
        SlotStep collector loop event next := by
    rintro ⟨step, isQuiet⟩
    refine .quiet step.marked (congrArg pendingSlot step.phase) ?_ ?_
    · intro slot settling
      rw [step.phase]
      exact settling
    · exact isQuiet.imp_right .inr
  have phase := fits.phase
  cases action with
  | tick heartbeat =>
    simp only [nextCron] at advance
    split at advance
    · next isPhase =>
        obtain ⟨rfl, rfl⟩ := by simpa using advance
        refine .quiet rfl (by rw [isPhase]; rfl) ?_ (.inl rfl)
        rw [isPhase]
        exact nofun
    · contradiction
  | read =>
    simp only [nextCron] at advance
    split at advance
    · next fields after isPhase =>
        obtain ⟨rfl, rfl⟩ := by simpa using advance
        refine .quiet rfl (by rw [isPhase]; rfl) ?_ (.inl rfl)
        rw [isPhase]
        intro slot settling
        cases after with
        | run other => exact settling
        | decide => contradiction
        | sleep => contradiction
    · contradiction
  | rename =>
    simp only [nextCron] at advance
    split at advance
    · next existing fields after isPhase =>
        obtain ⟨rfl, rfl⟩ := by simpa using advance
        rw [isPhase] at phase
        cases after with
        | decide =>
          refine .quiet rfl (by rw [isPhase]; rfl) ?_ (.inl rfl)
          rw [isPhase]
          exact nofun
        | sleep =>
          refine .quiet rfl (by rw [isPhase]; rfl) ?_ (.inl rfl)
          rw [isPhase]
          exact nofun
        | run slot =>
          exact .mark (by rw [isPhase]; rfl) (by rw [isPhase]; rfl)
            phase.2.2.1 rfl rfl
    · contradiction
  | readClock now =>
    simp only [nextCron] at advance
    split at advance
    · next isPhase =>
        split at advance
        · obtain ⟨rfl, rfl⟩ := by simpa using advance
          refine .quiet rfl (by rw [isPhase]; rfl) ?_
            (.inr (.inl ⟨_, rfl⟩))
          rw [isPhase]
          exact nofun
        · obtain ⟨rfl, rfl⟩ := by simpa using advance
          refine .quiet rfl (by rw [isPhase]; rfl) ?_ (.inl rfl)
          rw [isPhase]
          exact nofun
    · contradiction
  | compare =>
    simp only [nextCron] at advance
    split at advance
    · next slot isPhase =>
        rw [isPhase] at phase
        split at advance
        · next last =>
            obtain ⟨rfl, rfl⟩ := by simpa using advance
            have isMarked : slot ∈ loop.marked := by
              rw [fits.marker] at last
              cases shape : loop.marked with
              | nil =>
                rw [shape] at last
                rw [← last] at phase
                exact absurd phase.1 (by decide)
              | cons first rest =>
                rw [shape] at last
                exact List.mem_cons.mpr (.inl last.symm)
            refine ⟨?_, ?_, nofun, nofun, ?_⟩
            · intro other
              rw [isPhase]
              rfl
            · rintro other (before | settling)
              · exact .inl before
              · rw [isPhase] at settling
                contradiction
            · rintro other active same
              cases same
              rw [isPhase]
              exact ⟨isMarked, rfl⟩
        · obtain ⟨rfl, rfl⟩ := by simpa using advance
          refine ⟨?_, ?_, ?_, nofun, nofun⟩
          · intro other
            rw [isPhase]
            rfl
          · rintro other (before | settling)
            · exact .inl before
            · rw [isPhase] at settling
              contradiction
          · rintro other same
            cases same
            exact .inr rfl
    · contradiction
  | start pid =>
    simp only [nextCron] at advance
    split at advance
    · next slot isPhase =>
        rw [isPhase] at phase
        split at advance
        · obtain ⟨rfl, rfl⟩ := by simpa using advance
          exact .settle isPhase phase rfl rfl (.inl ⟨pid, rfl⟩)
        · contradiction
    · contradiction
  | failStart error heartbeat =>
    simp only [nextCron] at advance
    split at advance
    · next slot isPhase =>
        rw [isPhase] at phase
        split at advance
        · obtain ⟨rfl, rfl⟩ := by simpa using advance
          exact .settle isPhase phase rfl rfl (.inr (.inl rfl))
        · contradiction
    · contradiction
  | pass =>
    simp only [nextCron] at advance
    split at advance
    · next slot isPhase =>
        rw [isPhase] at phase
        split at advance
        · contradiction
        · next noRoom =>
            obtain ⟨rfl, rfl⟩ := by simpa using advance
            exact .settle isPhase phase rfl rfl
              (.inr (.inr ⟨_, rfl, Nat.le_of_not_lt noRoom⟩))
    · contradiction
  | reap pid =>
    exact worker
      (workerStep_of_next fits advance ordered (.inl ⟨pid, rfl⟩))
  | finish pid =>
    exact worker
      (workerStep_of_next fits advance ordered (.inr (.inl ⟨pid, rfl⟩)))
  | fail pid error heartbeat =>
    exact worker
      (workerStep_of_next fits advance ordered
        (.inr (.inr (.inl ⟨pid, error, heartbeat, rfl⟩))))
  | workerRead pid =>
    exact worker
      (workerStep_of_next fits advance ordered
        (.inr (.inr (.inr (.inl ⟨pid, rfl⟩)))))
  | workerRename pid =>
    exact worker
      (workerStep_of_next fits advance ordered
        (.inr (.inr (.inr (.inr ⟨pid, rfl⟩)))))

/-- A step keeps the marked slots settled. -/
theorem SlotsFit.step {file : Option ConfigHash} {trace : List CronEvent}
    (fits : SlotsFit collector file trace loop)
    (step : SlotStep collector loop event next) :
    SlotsFit collector file (trace ++ [event]) next where
  settled := by
    intro slot
    rw [slotCount_snoc, fits.settled slot, step.settled slot]
  found := by
    intro slot isIn
    rcases List.mem_append.mp isIn with before | latest
    · exact step.kept slot (fits.found slot before)
    · exact step.found slot (List.mem_singleton.mp latest).symm
  full := by
    intro slot active isIn
    rcases List.mem_append.mp isIn with before | latest
    · exact fits.full slot active before
    · exact step.full slot active (List.mem_singleton.mp latest).symm
  skips := by
    intro earlier slot active later whole
    rcases snoc_eq_append_cons whole with
      ⟨rfl, rfl, -⟩ | ⟨between, shape, -⟩
    · obtain ⟨isMarked, none_⟩ := step.skips slot active rfl
      rw [fits.settled slot, none_, if_pos ⟨isMarked, nofun⟩]
      exact Nat.one_pos
    · exact fits.skips earlier slot active between shape

end

theorem fits_startedLoop
    (collector : CronCollector) (file : Option ConfigHash) :
    FileFits (startedLoop file) ∧
      SlotsFit collector file [] (startedLoop file) := by
  refine ⟨⟨?_, trivial, ?_⟩, ?_, nofun, nofun, ?_⟩
  · unfold startedLoop
    dsimp only
    split
    · next none_ => exact none_
    · rfl
  · exact fun worker member => absurd member List.not_mem_nil
  · intro slot
    have none_ :
        pendingSlot (startedLoop file).phase ≠ some slot := nofun
    rw [slotCount, List.countP_nil, Nat.add_zero]
    simp only [none_, and_true, ne_eq, not_false_eq_true]
    unfold startedLoop
    dsimp only
    split
    · rfl
    · by_cases same : lastCronSlot (file.getD []) = slot
      · simp [same]
      · simp [same, Ne.symm same]
  · intro earlier slot active later whole
    simp at whole

def everyValue (least greatest : Nat) : CronField where
  values := List.range' least (greatest + 1 - least)
  wildcard := true

def minuteCollector (multiple : Nat) : CronCollector where
  settings :=
    { pid := 10
      name := "c"
      title := "dashboard collector: c"
      command := .string "./c"
      cwd := .string "home"
      interval := .number "30"
      jobInterval := .null
      configuredInterval := none
      schedule := "cron"
      mode := "multiple"
      multiple := multiple }
  cron :=
    some
      { minute := everyValue 0 59
        hour := everyValue 0 23
        dayOfMonth := everyValue 1 31
        month := everyValue 1 12
        dayOfWeek := everyValue 0 6 }

def earlyMinute (minute : Nat) : LocalTime where
  minute := minute
  hour := 0
  dayOfMonth := 1
  month := 0
  year := 126
  dayOfWeek := 4
  zone := "+0000".toList

/-- A tick up to the comparison with the last slot. -/
def tickActions (minute : Nat) : List CronAction :=
  [.tick "h", .read, .rename, .readClock (earlyMinute minute), .compare]

def runActions (minute pid : Nat) : List CronAction :=
  tickActions minute ++ [.read, .rename, .start pid, .read, .rename]

end DeveloperDashboard.Collector
