import DeveloperDashboard.Indicator.CallOrder

namespace DeveloperDashboard.Indicator

open Library Perl

/-!
# Calls that decide in time

When what every call decides from its reads still holds at its last step, the
record of the writable layer is that of the calls one after the other.
-/

variable {phase : CallPhase} {layer : Nat} {came : CallStep × CallsState}

namespace IndicatorPlace

variable {place : IndicatorPlace}

namespace CallInvariant

variable {initial store : LayerRecords} {trace : List IndicatorEvent}
  {state next : CallsState} {order : List (Nat × IndicatorCall)}
  {id : Nat} {call : IndicatorCall} {event : CallStep}
  (invariant : place.CallInvariant initial trace state order store)

include invariant

theorem nearestRecord_store :
    nearestRecord place.layers store =
      nearestRecord place.layers state.settled :=
  nearestRecord_congr invariant.settled

theorem store_zero :
    store 0 = state.records 0 := by
  rw [invariant.settled 0 (Nat.succ_pos _), CallsState.settled_zero]

omit invariant in
theorem not_clears_of_clearing
    (none_ : phase.clearing = none) (layer : Nat) : ¬phase.Clears layer := by
  rintro ⟨reached, found, -⟩
  rw [none_] at found
  cases found

theorem go_on
    {after : CallPhase} (isCall : state.calls id = some (call, phase))
    (clearing : phase.clearing = none ∧ after.clearing = none)
    (unlocked : after.lockedLayer = none)
    (committed : after.isCommitted = phase.isCommitted)
    (suits : place.IsPhaseOf call after) :
    place.CallInvariant initial (trace ++ [.stepped (.advanced id)])
      (state.moved id call after) order store := by
  refine invariant.quiet isCall rfl rfl ?_ committed ?_ suits ?_ ?_ ?_
  · intro _ _ _ isLocked
    exact isLocked
  · intro layer _ _
    exact iff_of_false (not_clears_of_clearing clearing.2 layer)
      (not_clears_of_clearing clearing.1 layer)
  · intro _ isLocked
    rw [unlocked] at isLocked
    cases isLocked
  · rintro _ _ rfl
    cases unlocked
  · rintro _ rfl
    cases unlocked

theorem read_done
    (isCall : state.calls id = some (call, .reading layer))
    (nothing : place.perform call store = store) :
    place.CallInvariant initial (trace ++ [.stepped (.advanced id)])
      (state.moved id call .finished) (order ++ [(id, call)]) store := by
  have committed :
      place.CallInvariant initial (trace ++ [.stepped (.advanced id)])
        (state.moved id call .finished) (order ++ [(id, call)])
        (place.perform call store) := by
    have suits : place.IsPhaseOf call .finished := trivial
    refine invariant.commit isCall rfl rfl (.advanced id) ?_ rfl suits rfl
      ?_ ?_
    · intro _ _ _ isLocked
      exact ⟨isLocked, rfl⟩
    · intro other isLayer
      rw [nothing, invariant.settled other isLayer]
      refine (CallsState.settled_congr isCall
        (show (state.moved id call .finished).calls = _ from rfl) rfl
        ?_).symm
      intro _
      exact iff_of_false (not_clears_of_clearing rfl other)
        (not_clears_of_clearing rfl other)
    · intro _ _ same
      cases same
  rw [nothing] at committed
  exact committed

theorem read
    (isCall : state.calls id = some (call, .reading layer))
    (timely : place.IsTimely state call (.reading layer))
    (step : place.advance state id call (.reading layer) = some came) :
    ∃ newOrder newStore,
      place.CallInvariant initial (trace ++ [.stepped came.1]) came.2
        newOrder newStore := by
  obtain ⟨isReader, bounded⟩ := (invariant.sound _ _ _ isCall).suits
  obtain rfl := Option.some.inj step
  dsimp only
  by_cases isLayer : layer < place.layers
  · rw [if_pos isLayer]
    cases found : state.records layer with
    | none =>
      exact ⟨order, store,
        invariant.go_on isCall ⟨rfl, rfl⟩ rfl rfl ⟨isReader, isLayer⟩⟩
    | some item =>
      cases call with
      | setIndicator args => cases isReader
      | removeLegacyCoreDocker => cases isReader
      | markStale status now =>
        exact ⟨order, store,
          invariant.go_on isCall ⟨rfl, rfl⟩ rfl rfl ⟨layer, item, rfl⟩⟩
      | setIndicatorIfChanged args =>
        unfold phaseOfFound
        by_cases unchanged : place.isUnchanged args item = true
        · dsimp only
          rw [if_pos unchanged]
          refine ⟨_, store, invariant.read_done isCall ?_⟩
          unfold perform
          dsimp only
          rw [invariant.nearestRecord_store]
          exact if_pos (timely item isLayer found unchanged)
        · dsimp only
          rw [if_neg unchanged]
          exact ⟨order, store, invariant.go_on isCall ⟨rfl, rfl⟩ rfl rfl rfl⟩
  · rw [if_neg isLayer]
    cases call with
    | setIndicator args => cases isReader
    | removeLegacyCoreDocker => cases isReader
    | setIndicatorIfChanged args =>
      exact ⟨order, store, invariant.go_on isCall ⟨rfl, rfl⟩ rfl rfl rfl⟩
    | markStale status now =>
      refine ⟨_, store, invariant.read_done isCall ?_⟩
      have missing : nearestRecord place.layers store = none := by
        rw [invariant.nearestRecord_store]
        exact timely (by omega)
      unfold perform
      dsimp only
      rw [missing]

omit invariant in
theorem ne_of_locked {locks : Nat → Option Nat} {own other taken : Nat}
    (different : other ≠ own) (isOwn : locks taken = some own)
    (isOther : locks layer = some other) : layer ≠ taken := by
  rintro rfl
  exact different (Option.some.inj (isOther.symm.trans isOwn))

theorem lock
    {after : CallPhase} (isCall : state.calls id = some (call, phase))
    (free : state.locks layer = none)
    (locked : after.lockedLayer = some layer)
    (committed : after.isCommitted = phase.isCommitted)
    (clearing : after.clearing = phase.clearing)
    (suits : place.IsPhaseOf call after)
    (early :
      (∀ write found, after ≠ .replacing write found) ∧
        ∀ layer, after ≠ .unlinking layer) :
    place.CallInvariant initial (trace ++ [.stepped (.advanced id)])
      ((state.locked id layer).moved id call after) order store := by
  refine invariant.quiet isCall rfl rfl ?_ committed ?_ suits ?_ ?_ ?_
  · intro other _ taken isTaken
    have different : taken ≠ layer := by
      rintro rfl
      rw [free] at isTaken
      cases isTaken
    change Function.update state.locks layer (some id) taken = some other
    rw [Function.update_of_ne different]
    exact isTaken
  · intro other _ _
    unfold CallPhase.Clears
    rw [clearing]
  · intro taken isTaken
    rw [locked] at isTaken
    obtain rfl := Option.some.inj isTaken
    exact Function.update_self _ _ _
  · intro write found same
    exact absurd same (early.1 write found)
  · intro taken same
    exact absurd same (early.2 taken)

theorem perform_of_renaming
    {write : PendingWrite} {existing : Option Record}
    (isCall : state.calls id = some (call, .replacing write existing))
    (timely : place.IsTimely state call (.replacing write existing)) :
    place.perform call store = place.setIndicator write.args store := by
  have suits : IsWriteOf write call := (invariant.sound _ _ _ isCall).suits
  cases call with
  | removeLegacyCoreDocker => cases suits
  | setIndicator args =>
    obtain rfl : write = ⟨args, none⟩ := suits
    rfl
  | setIndicatorIfChanged args =>
    obtain rfl : write = ⟨args, none⟩ := suits
    have changed :
        (nearestRecord place.layers store).any (place.isUnchanged args) =
          false := by
      rw [invariant.nearestRecord_store]
      exact timely
    unfold perform
    dsimp only
    rw [changed]
    rfl
  | markStale status now =>
    obtain ⟨layer, item, rfl⟩ := suits
    obtain ⟨-, found⟩ := timely layer item rfl
    have nearest : nearestRecord place.layers store = some item := by
      refine nearestRecord_of_zero ?_
      rw [invariant.store_zero]
      exact found
    unfold perform
    dsimp only
    rw [nearest]

theorem rename
    {write : PendingWrite} {existing : Option Record}
    (isCall : state.calls id = some (call, .replacing write existing))
    (timely : place.IsTimely state call (.replacing write existing)) :
    ∃ newOrder newStore,
      place.CallInvariant initial (trace ++ [.stepped (renameStep id write)])
        (((state.stored 0
          (some (place.saved write.args existing))).unlocked 0).moved id call
            .finished) newOrder newStore := by
  have sound := invariant.sound _ _ _ isCall
  have isOwn : state.locks 0 = some id := sound.lock 0 rfl
  have suits : place.IsPhaseOf call .finished := trivial
  refine ⟨_, _, invariant.commit isCall rfl rfl (renameStep id write) ?_ rfl
    suits rfl ?_ ?_⟩
  · intro other different layer isLocked
    have notFirst := ne_of_locked different isOwn isLocked
    constructor
    · change Function.update state.locks 0 none layer = some other
      rw [Function.update_of_ne notFirst]
      exact isLocked
    · exact Function.update_of_ne notFirst _ _
  · intro layer isLayer
    rw [invariant.perform_of_renaming isCall timely]
    unfold setIndicator
    by_cases first : layer = 0
    · subst first
      rw [Function.update_self, CallsState.settled_zero, invariant.store_zero,
        sound.existing write existing rfl]
      change _ =
        Function.update state.records 0
          (some (place.saved write.args existing)) 0
      rw [Function.update_self]
    · rw [Function.update_of_ne first, invariant.settled layer isLayer]
      refine (CallsState.settled_congr isCall
        (show
          (((state.stored 0
            (some (place.saved write.args existing))).unlocked 0).moved id
              call .finished).calls = _ from rfl)
        (Function.update_of_ne first _ _) ?_).symm
      intro _
      exact iff_of_false (not_clears_of_clearing rfl layer)
        (not_clears_of_clearing rfl layer)
  · intro other layer same
    unfold renameStep at same
    cases source : write.source with
    | none =>
      rw [source] at same
      cases same
    | some read =>
      rw [source] at same
      obtain ⟨-, rfl⟩ := CallStep.markedStale.inj same
      have suits : IsWriteOf write call := sound.suits
      cases call with
      | removeLegacyCoreDocker => cases suits
      | setIndicator args =>
        obtain rfl : write = ⟨args, none⟩ := suits
        cases source
      | setIndicatorIfChanged args =>
        obtain rfl : write = ⟨args, none⟩ := suits
        cases source
      | markStale status now =>
        exact (timely read.1 read.2 source).1

omit invariant in
theorem clears_iff {reached : Nat}
    (found : phase.clearing = some reached) (layer : Nat) :
    phase.Clears layer ↔ 1 ≤ reached ∧ reached ≤ layer := by
  constructor
  · rintro ⟨other, isOther, bounds⟩
    obtain rfl := Option.some.inj (found.symm.trans isOther)
    exact bounds
  · intro bounds
    exact ⟨reached, found, bounds⟩

/-- A removal leaves the writable layer: from now on the retired records of
the others do not count. -/
theorem leave_writable
    (isCall : state.calls id = some (.removeLegacyCoreDocker, phase))
    (pending : phase.isCommitted = false)
    (nextCalls :
      next.calls =
        Function.update state.calls id
          (some (.removeLegacyCoreDocker, .visiting 1)))
    (locks :
      ∀ other, other ≠ id → ∀ layer, state.locks layer = some other →
        next.locks layer = some other ∧
          next.records layer = state.records layer)
    (kept : ∀ layer, layer ≠ 0 → next.records layer = state.records layer)
    (first :
      next.records 0 =
        (state.records 0).filter fun record =>
          !isLegacyCoreDockerIndicator record) :
    ∃ newOrder newStore,
      place.CallInvariant initial (trace ++ [.stepped (.advanced id)]) next
        newOrder newStore := by
  have nextCall :
      next.calls id = some (.removeLegacyCoreDocker, .visiting 1) := by
    rw [nextCalls, Function.update_self]
  have suits :
      place.IsPhaseOf .removeLegacyCoreDocker (.visiting 1) :=
    ⟨rfl, Nat.succ_le_succ (Nat.zero_le _)⟩
  refine ⟨_, _, invariant.commit isCall pending nextCalls (.advanced id)
    locks rfl suits rfl ?_ ?_⟩
  · intro layer isLayer
    unfold perform
    dsimp only
    rw [if_pos isLayer, invariant.settled layer isLayer]
    by_cases isZero : layer = 0
    · subst isZero
      rw [CallsState.settled_zero, CallsState.settled_zero, first]
    · have clears : next.IsClearing layer := by
        rw [CallsState.isClearing_iff nextCall, clears_iff rfl]
        exact Or.inr ⟨Nat.le_refl 1, by omega⟩
      unfold CallsState.settled CallsState.IsDoomed
      rw [kept layer isZero]
      cases found : state.records layer with
      | none => simp
      | some record =>
        cases legacy : isLegacyCoreDockerIndicator record with
        | true =>
          rw [if_pos (⟨by simp [legacy], clears⟩ : _ ∧ _)]
          split
          · rfl
          · simp [legacy]
        | false =>
          rw [if_neg (by simp [legacy]), if_neg (by simp [legacy])]
          simp [legacy]
  · intro other layer same
    cases same

theorem pass
    (isCall : state.calls id = some (.removeLegacyCoreDocker, phase))
    (isClearing : phase.clearing = some layer)
    (committed : phase.isCommitted = decide (layer ≠ 0))
    (isLayer : layer < place.layers)
    (clean :
      (state.records layer).any isLegacyCoreDockerIndicator = false)
    (nextCalls :
      next.calls =
        Function.update state.calls id
          (some (.removeLegacyCoreDocker, .visiting (layer + 1))))
    (records : next.records = state.records)
    (locks :
      ∀ other, other ≠ id → ∀ layer, state.locks layer = some other →
        next.locks layer = some other) :
    ∃ newOrder newStore,
      place.CallInvariant initial (trace ++ [.stepped (.advanced id)]) next
        newOrder newStore := by
  by_cases first : layer = 0
  · subst first
    refine invariant.leave_writable isCall committed nextCalls ?_ ?_ ?_
    · intro other different taken isTaken
      exact ⟨locks other different taken isTaken, congrFun records taken⟩
    · intro other _
      exact congrFun records other
    · rw [records]
      cases found : state.records 0 with
      | none => rfl
      | some record =>
        rw [found] at clean
        have clean : isLegacyCoreDockerIndicator record = false := clean
        exact (Option.filter_some_pos (by rw [clean]; rfl)).symm
  · refine ⟨order, store, invariant.quiet isCall nextCalls records locks ?_ ?_
      ⟨rfl, isLayer⟩ ?_ ?_ ?_⟩
    · rw [committed]
      exact (decide_eq_true first).symm
    · intro other _ legacy
      have different : other ≠ layer := by
        rintro rfl
        rw [clean] at legacy
        cases legacy
      rw [clears_iff rfl, clears_iff isClearing]
      omega
    · intro _ isLocked
      cases isLocked
    · intro _ _ same
      cases same
    · intro _ same
      cases same

/-- A removal looks for the record of a layer. -/
theorem visit
    (isCall : state.calls id = some (call, .visiting layer))
    (step : place.advance state id call (.visiting layer) = some came) :
    ∃ newOrder newStore,
      place.CallInvariant initial (trace ++ [.stepped came.1]) came.2
        newOrder newStore := by
  obtain ⟨rfl, bounded⟩ := (invariant.sound _ _ _ isCall).suits
  obtain rfl := Option.some.inj step
  dsimp only
  by_cases isLayer : layer < place.layers
  · rw [if_pos isLayer]
    cases found : state.records layer with
    | none =>
      refine invariant.pass isCall rfl rfl isLayer ?_ rfl rfl ?_
      · rw [found]
        rfl
      · intro _ _ _ isLocked
        exact isLocked
    | some record =>
      refine ⟨order, store, invariant.quiet isCall rfl rfl ?_ rfl ?_
        ⟨rfl, isLayer⟩ ?_ ?_ ?_⟩
      · intro _ _ _ isLocked
        exact isLocked
      · intro _ _ _
        exact Iff.rfl
      · intro _ isLocked
        cases isLocked
      · intro _ _ same
        cases same
      · intro _ same
        cases same
  · rw [if_neg isLayer]
    have last : layer ≠ 0 := by
      have positive : 0 < place.layers := Nat.succ_pos _
      omega
    refine ⟨order, store, invariant.quiet isCall rfl rfl ?_ ?_ ?_ trivial ?_
      ?_ ?_⟩
    · intro _ _ _ isLocked
      exact isLocked
    · exact (decide_eq_true last).symm
    · intro other isOther _
      refine iff_of_false (not_clears_of_clearing rfl other) ?_
      rw [clears_iff rfl]
      omega
    · intro _ isLocked
      cases isLocked
    · intro _ _ same
      cases same
    · intro _ same
      cases same

omit invariant in
theorem locks_of_unlocked {locks : Nat → Option Nat} {own : Nat}
    (isOwn : locks layer = some own) :
    ∀ other, other ≠ own → ∀ taken, locks taken = some other →
      Function.update locks layer none taken = some other := by
  intro other different taken isTaken
  rw [Function.update_of_ne (ne_of_locked different isOwn isTaken)]
  exact isTaken

/-- A removal reads the record of a layer again under its lock. -/
theorem hold
    (isCall : state.calls id = some (call, .holding layer))
    (step : place.advance state id call (.holding layer) = some came) :
    ∃ newOrder newStore,
      place.CallInvariant initial (trace ++ [.stepped came.1]) came.2
        newOrder newStore := by
  have sound := invariant.sound _ _ _ isCall
  obtain ⟨rfl, isLayer⟩ := sound.suits
  have isOwn : state.locks layer = some id := sound.lock layer rfl
  obtain rfl := Option.some.inj step
  dsimp only
  by_cases legacy :
      (state.records layer).any isLegacyCoreDockerIndicator = true
  · rw [if_pos legacy]
    refine ⟨order, store, invariant.quiet isCall rfl rfl ?_ rfl ?_
      ⟨rfl, isLayer⟩ ?_ ?_ ?_⟩
    · intro _ _ _ isLocked
      exact isLocked
    · intro _ _ _
      exact Iff.rfl
    · intro taken isTaken
      obtain rfl := Option.some.inj isTaken
      exact isOwn
    · intro _ _ same
      cases same
    · intro taken same
      obtain rfl := CallPhase.unlinking.inj same
      exact legacy
  · rw [if_neg legacy]
    exact invariant.pass isCall rfl rfl isLayer (Bool.eq_false_iff.mpr legacy)
      rfl rfl (locks_of_unlocked isOwn)

theorem unlink
    (isCall : state.calls id = some (call, .unlinking layer))
    (step : place.advance state id call (.unlinking layer) = some came) :
    ∃ newOrder newStore,
      place.CallInvariant initial (trace ++ [.stepped came.1]) came.2
        newOrder newStore := by
  have sound := invariant.sound _ _ _ isCall
  obtain ⟨rfl, isLayer⟩ := sound.suits
  have isOwn : state.locks layer = some id := sound.lock layer rfl
  have legacy := sound.legacy layer rfl
  obtain rfl := Option.some.inj step
  have others :
      ∀ other, other ≠ id → ∀ taken, state.locks taken = some other →
        Function.update state.locks layer none taken = some other ∧
          Function.update state.records layer none taken =
            state.records taken := by
    intro other different taken isTaken
    exact ⟨locks_of_unlocked isOwn other different taken isTaken,
      Function.update_of_ne (ne_of_locked different isOwn isTaken) _ _⟩
  have kept (other : Nat) (different : other ≠ layer) :
      Function.update state.records layer none other = state.records other :=
    Function.update_of_ne different _ _
  by_cases first : layer = 0
  · subst first
    refine invariant.leave_writable isCall rfl rfl others kept ?_
    obtain ⟨record, found, isLegacy⟩ := (Option.any_eq_true _ _).mp legacy
    change Function.update state.records 0 none 0 = _
    rw [Function.update_self, found]
    exact (Option.filter_some_neg (by rw [isLegacy]; rfl)).symm
  · have suits :
        place.IsPhaseOf .removeLegacyCoreDocker (.visiting (layer + 1)) :=
      ⟨rfl, isLayer⟩
    refine ⟨order, store, invariant.extend rfl
      (invariant.linear.step (.advanced id)) (by simp) (fun _ _ => Iff.rfl)
      others
      ⟨List.mem_append_left _ sound.invoked, ?_, suits, ?_, ?_, ?_⟩ ?_ ?_⟩
    · rw [sound.committed]
      exact iff_of_true (decide_eq_true first) rfl
    · intro _ isLocked
      cases isLocked
    · intro _ _ same
      cases same
    · intro _ same
      cases same
    · intro other isOther
      rw [invariant.settled other isOther]
      by_cases same : other = layer
      · subst same
        have doomed : state.IsDoomed other := by
          refine ⟨legacy, ?_⟩
          rw [CallsState.isClearing_iff isCall, clears_iff rfl]
          exact Or.inr ⟨by omega, Nat.le_refl _⟩
        have gone :
            Function.update state.records other none other = none :=
          Function.update_self _ _ _
        unfold CallsState.settled
        rw [if_pos doomed]
        split
        · rfl
        · exact gone.symm
      · refine (CallsState.settled_congr isCall
          (show
            (((state.stored layer none).unlocked layer).moved id
              .removeLegacyCoreDocker (.visiting (layer + 1))).calls = _
                from rfl)
          (kept other same) ?_).symm
        intro _
        rw [clears_iff rfl, clears_iff rfl]
        omega
    · intro other taken same
      cases same

theorem advance
    (isCall : state.calls id = some (call, phase))
    (timely : place.IsTimely state call phase)
    (step : place.advance state id call phase = some came) :
    ∃ newOrder newStore,
      place.CallInvariant initial (trace ++ [.stepped came.1]) came.2
        newOrder newStore := by
  have suits := (invariant.sound _ _ _ isCall).suits
  cases phase with
  | reading layer => exact invariant.read isCall timely step
  | locking write =>
    dsimp only [IndicatorPlace.advance] at step
    split at step
    · next free =>
        obtain rfl := Option.some.inj step
        exact ⟨order, store, invariant.lock isCall free rfl rfl rfl suits
          ⟨by simp, by simp⟩⟩
    · cases step
  | rereading write =>
    obtain rfl := Option.some.inj step
    refine ⟨order, store, invariant.quiet isCall rfl rfl ?_ rfl ?_ suits ?_
      ?_ ?_⟩
    · intro _ _ _ isLocked
      exact isLocked
    · intro layer _ _
      exact iff_of_false (not_clears_of_clearing rfl layer)
        (not_clears_of_clearing rfl layer)
    · intro layer isLocked
      exact (invariant.sound _ _ _ isCall).lock layer isLocked
    · intro other found same
      exact (CallPhase.replacing.inj same).2
    · intro layer same
      cases same
  | replacing write existing =>
    obtain rfl := Option.some.inj step
    exact invariant.rename isCall timely
  | visiting layer => exact invariant.visit isCall step
  | waiting layer =>
    dsimp only [IndicatorPlace.advance] at step
    split at step
    · next free =>
        obtain rfl := Option.some.inj step
        exact ⟨order, store, invariant.lock isCall free rfl rfl rfl suits
          ⟨by simp, by simp⟩⟩
    · cases step
  | holding layer => exact invariant.hold isCall step
  | unlinking layer => exact invariant.unlink isCall step
  | finished => cases step
  | returned => cases step

omit invariant in
theorem id_of_advance
    (step : place.advance state id call phase = some came) :
    came.1.id = id := by
  cases phase with
  | finished => cases step
  | returned => cases step
  | locking write =>
    dsimp only [IndicatorPlace.advance] at step
    split at step
    · obtain rfl := Option.some.inj step
      rfl
    · cases step
  | waiting layer =>
    dsimp only [IndicatorPlace.advance] at step
    split at step
    · obtain rfl := Option.some.inj step
      rfl
    · cases step
  | replacing write existing =>
    obtain rfl := Option.some.inj step
    dsimp only [renameStep]
    split
    · rfl
    · rfl
  | _ =>
    obtain rfl := Option.some.inj step
    rfl

omit invariant in
theorem firstPhase_facts (place : IndicatorPlace) (call : IndicatorCall) :
    place.IsPhaseOf call (firstPhase call) ∧
      (firstPhase call).isCommitted = false ∧
      (firstPhase call).lockedLayer = none ∧
      ∀ layer, ¬(firstPhase call).Clears layer := by
  cases call with
  | setIndicator args =>
    exact ⟨rfl, rfl, rfl, not_clears_of_clearing rfl⟩
  | setIndicatorIfChanged args =>
    exact ⟨⟨trivial, Nat.zero_le _⟩, rfl, rfl, not_clears_of_clearing rfl⟩
  | markStale status now =>
    exact ⟨⟨trivial, Nat.zero_le _⟩, rfl, rfl, not_clears_of_clearing rfl⟩
  | removeLegacyCoreDocker =>
    refine ⟨⟨rfl, Nat.zero_le _⟩, rfl, rfl, ?_⟩
    intro layer clears
    have bounds := (clears_iff (show
      (firstPhase .removeLegacyCoreDocker).clearing = some 0 from rfl)
        layer).mp clears
    omega

/-- A new call has taken no effect. -/
theorem invoke
    (unused : state.calls id = none) :
    place.CallInvariant initial (trace ++ [.invoked id call])
      (state.moved id call (firstPhase call)) order store := by
  obtain ⟨suits, pending, unlocked, clearsNothing⟩ :=
    firstPhase_facts place call
  have notYet : id ∉ order.map Prod.fst := by
    intro isIn
    obtain ⟨entry, isEntry, rfl⟩ := List.mem_map.mp isIn
    exact invariant.fresh _ unused entry.2
      (invariant.linear.invoked entry isEntry)
  refine invariant.extend rfl
    (invariant.linear.invoke (invariant.fresh id unused)) ?_
    (fun _ _ => Iff.rfl) ?_ ⟨?_, ?_, suits, ?_, ?_, ?_⟩ ?_ ?_
  · intro other otherCall same
    exact (CallEvent.invoked.inj same).1.symm
  · intro _ _ _ isLocked
    exact ⟨isLocked, rfl⟩
  · exact List.mem_append_right _ List.mem_cons_self
  · rw [pending]
    exact iff_of_false notYet Bool.false_ne_true
  · intro layer isLocked
    rw [unlocked] at isLocked
    cases isLocked
  · intro write found same
    rw [same] at unlocked
    cases unlocked
  · intro layer same
    rw [same] at unlocked
    cases unlocked
  · intro layer isLayer
    rw [invariant.settled layer isLayer]
    exact (CallsState.settled_of_unused unused
      (show (state.moved id call (firstPhase call)).calls = _ from rfl) rfl
      (clearsNothing layer)).symm
  · intro _ _ same
    cases same

theorem respond
    (isCall : state.calls id = some (call, .finished)) :
    place.CallInvariant initial (trace ++ [.responded id])
      (state.moved id call .returned) order store := by
  have sound := invariant.sound _ _ _ isCall
  have suits : place.IsPhaseOf call .returned := trivial
  refine invariant.extend rfl
    (invariant.linear.respond (sound.committed.mpr rfl)) (by simp)
    (fun _ _ => Iff.rfl) ?_
    ⟨List.mem_append_left _ sound.invoked, ?_, suits, ?_, ?_, ?_⟩ ?_ ?_
  · intro _ _ _ isLocked
    exact ⟨isLocked, rfl⟩
  · rw [sound.committed]
    rfl
  · intro _ isLocked
    cases isLocked
  · intro _ _ same
    cases same
  · intro _ same
    cases same
  · intro layer isLayer
    rw [invariant.settled layer isLayer]
    refine (CallsState.settled_congr isCall
      (show (state.moved id call .returned).calls = _ from rfl) rfl
      ?_).symm
    intro _
    exact iff_of_false (not_clears_of_clearing rfl layer)
      (not_clears_of_clearing rfl layer)
  · intro _ _ same
    cases same

theorem after_step
    {latest : IndicatorEvent} {after : CallsState}
    (step : (place.callSystem initial).step state latest after)
    (timely : place.StaysTimely state latest) :
    ∃ newOrder newStore,
      place.CallInvariant initial (trace ++ [latest]) after newOrder
        newStore := by
  obtain ⟨input, taken⟩ := step
  cases input with
  | invoke id call =>
    dsimp only [next?] at taken
    split at taken
    · next unused =>
        obtain ⟨rfl, rfl⟩ := Prod.mk.inj (Option.some.inj taken)
        exact ⟨order, store,
          invariant.invoke (Option.isNone_iff_eq_none.mp unused.1)⟩
    · cases taken
  | advance id =>
    dsimp only [next?] at taken
    cases isCall : state.calls id with
    | none =>
      rw [isCall] at taken
      cases taken
    | some found =>
      obtain ⟨call, phase⟩ := found
      rw [isCall] at taken
      obtain ⟨came, went, same⟩ := Option.map_eq_some_iff.mp taken
      obtain ⟨rfl, rfl⟩ := Prod.mk.inj same
      refine invariant.advance isCall (timely call phase ?_) went
      rw [id_of_advance went]
      exact isCall
  | respond id =>
    dsimp only [next?] at taken
    split at taken
    · next call isCall =>
        obtain ⟨rfl, rfl⟩ := Prod.mk.inj (Option.some.inj taken)
        exact ⟨order, store, invariant.respond isCall⟩
    · cases taken

omit invariant in
/-- Before any call the store is the first one. -/
theorem start (place : IndicatorPlace) (initial : LayerRecords) :
    place.CallInvariant initial []
      ⟨initial, fun _ => none, fun _ => none⟩ [] initial where
  linear := Linearization.nil
  fresh := by
    intro _ _ _ isIn
    cases isIn
  sound := by
    intro _ _ _ found
    cases found
  settled := by
    intro layer _
    unfold CallsState.settled
    rw [if_neg]
    rintro ⟨-, _, _, _, _, found, -⟩
    cases found
  localizesNothing := by
    intro _ _ isIn
    cases isIn

end CallInvariant

/--
In every run in which what a call decides from its reads still holds at its
last step, no call loses what another one has written.
-/
theorem losesNothing_of_execution
    {initial : LayerRecords} {trace : List IndicatorEvent}
    {state : CallsState}
    (execution :
      ((place.callSystem initial).restrict place.StaysTimely).Execution
        trace state) :
    LosesNothing place initial trace state := by
  have invariant :
      ∃ order store,
        place.CallInvariant initial trace state order store := by
    refine execution.invariant
      (fun trace state =>
        ∃ order store, place.CallInvariant initial trace state order store)
      ?_ ?_
    · rintro state rfl
      exact ⟨[], initial, CallInvariant.start place initial⟩
    · rintro trace state event next ⟨order, store, invariant⟩ ⟨step, timely⟩
      exact invariant.after_step step timely
  obtain ⟨order, store, invariant⟩ := invariant
  exact ⟨⟨order, store, invariant.linear, invariant.store_zero.symm⟩,
    invariant.localizesNothing⟩

end IndicatorPlace


def statusRecord (status : String) (updatedAt : Nat) : Record
  | .name => some (.string "build".toList)
  | .status => some (.string status.toList)
  | .updatedAt => some (Scalar.ofNat updatedAt)
  | _ => none

def buildPlace : IndicatorPlace :=
  ⟨"build".toList, 0⟩

def okRecords : LayerRecords :=
  fun layer => if layer = 0 then some (statusRecord "ok" 1) else none

/-- The record is marked as stale, without a new status. -/
def markCall : IndicatorCall :=
  .markStale none (Scalar.ofNat 3)

def errorCall : IndicatorCall :=
  .setIndicator ⟨statusRecord "error" 2, [], Scalar.ofNat 2⟩

/-- The newer record is written between the read and the lock of the other
call. -/
def lostInputs : List CallInput :=
  [.invoke 1 markCall, .advance 1, .invoke 2 errorCall, .advance 2,
    .advance 2, .advance 2, .respond 2, .advance 1, .advance 1, .advance 1,
    .respond 1]

def lostTrace : List IndicatorEvent :=
  [.invoked 1 markCall, .stepped (.advanced 1), .invoked 2 errorCall,
    .stepped (.advanced 2), .stepped (.advanced 2), .stepped (.advanced 2),
    .responded 2, .stepped (.advanced 1), .stepped (.advanced 1),
    .stepped (.markedStale 1 0), .responded 1]

/-- The record of the writable layer says `error`. -/
def SaysError (records : LayerRecords) : Prop :=
  ∃ record, records 0 = some record ∧
    record .status = some (.string "error".toList)

theorem saysError_markCall {records : LayerRecords}
    (isError : SaysError records) :
    SaysError (buildPlace.perform markCall records) := by
  obtain ⟨record, found, status⟩ := isError
  have nearest : nearestRecord buildPlace.layers records = some record :=
    nearestRecord_of_zero found
  unfold IndicatorPlace.perform markCall
  dsimp only
  rw [nearest]
  exact ⟨_, Function.update_self _ _ _, status⟩

/-- One after the other, the calls leave the status of the newer record. -/
theorem saysError_of_linearization
    {order : List (Nat × IndicatorCall)} {store : LayerRecords}
    (linear :
      Linearization buildPlace.perform okRecords lostTrace order store) :
    SaysError store := by
  have known (entry : Nat × IndicatorCall) (isIn : entry ∈ order) :
      entry = (1, markCall) ∨ entry = (2, errorCall) := by
    have isInvoked := linear.invoked entry isIn
    unfold lostTrace at isInvoked
    simp only [List.mem_cons, CallEvent.invoked.injEq, reduceCtorEq,
      false_or, or_false, List.not_mem_nil] at isInvoked
    rcases isInvoked with ⟨isFirst, isCall⟩ | ⟨isFirst, isCall⟩
    · exact Or.inl (Prod.ext isFirst isCall)
    · exact Or.inr (Prod.ext isFirst isCall)
  have isDone : 2 ∈ order.map Prod.fst :=
    linear.responded 2 (by simp [lostTrace])
  obtain ⟨entry, isEntry, isSecond⟩ := List.mem_map.mp isDone
  obtain ⟨front, back, rfl⟩ := List.append_of_mem isEntry
  have isError : entry = (2, errorCall) := by
    rcases known entry isEntry with rfl | same
    · cases isSecond
    · exact same
  have onlyMarks (other : Nat × IndicatorCall) (isBack : other ∈ back) :
      other = (1, markCall) := by
    have isIn : other ∈ front ++ entry :: back :=
      List.mem_append_right _ (List.mem_cons_of_mem _ isBack)
    rcases known other isIn with same | rfl
    · exact same
    · have twice := linear.nodup
      rw [List.map_append, List.nodup_append] at twice
      have notAgain := (List.nodup_cons.mp twice.2.1).1
      rw [isError] at notAgain
      exact absurd (List.mem_map_of_mem isBack) notAgain
  rw [← linear.result, isError]
  unfold performAll
  rw [List.foldl_append, List.foldl_cons]
  have errs (records : LayerRecords) :
      SaysError (buildPlace.perform errorCall records) := by
    unfold IndicatorPlace.perform errorCall
    exact ⟨_, Function.update_self _ _ _, rfl⟩
  have keeps (records : LayerRecords) (now : SaysError records) :
      SaysError
        (back.foldl (fun store entry => buildPlace.perform entry.2 store)
          records) := by
    clear linear isDone isEntry known
    induction back generalizing records with
    | nil => exact now
    | cons first back ih =>
      rw [List.foldl_cons, onlyMarks first List.mem_cons_self]
      exact ih
        (fun other isIn => onlyMarks other (List.mem_cons_of_mem _ isIn))
        _ (saysError_markCall now)
  exact keeps _ (errs _)

theorem mark_loses_newer_status :
    ∃ trace state,
      (buildPlace.callSystem okRecords).Execution trace state ∧
        ¬LosesNothing buildPlace okRecords trace state := by
  obtain ⟨state, ran, record, found, status⟩ :
      ∃ state,
        TransitionSystem.runInputs buildPlace.next?
            ⟨okRecords, fun _ => none, fun _ => none⟩ lostInputs =
          some (lostTrace, state) ∧
        ∃ record, state.records 0 = some record ∧
          record .status = some (.string "ok".toList) :=
    ⟨_, rfl, _, rfl, rfl⟩
  have run :
      (buildPlace.callSystem okRecords).Run
        ⟨okRecords, fun _ => none, fun _ => none⟩ lostTrace state :=
    TransitionSystem.Run.of_runInputs ran
  refine ⟨lostTrace, state,
    (TransitionSystem.Execution.start rfl).append run, ?_⟩
  rintro ⟨⟨order, store, linear, same⟩, -⟩
  obtain ⟨other, isOther, isError⟩ := saysError_of_linearization linear
  rw [found, isOther] at same
  rw [Option.some.inj same, isError] at status
  cases status

/-- A record that is marked with nobody else around. -/
theorem losesNothing_of_mark :
    ∃ trace state,
      trace.length = 6 ∧
        (state.records 0).any (fun record => record.truthy .stale) = true ∧
        LosesNothing buildPlace okRecords trace state := by
  have start :
      ((buildPlace.callSystem okRecords).restrict
        buildPlace.StaysTimely).Execution [] _ :=
    .start rfl
  have invoked := start.extend ⟨⟨.invoke 1 markCall, rfl⟩, trivial⟩
  have read := invoked.extend ⟨⟨.advance 1, rfl⟩, by
    rintro call phase same
    obtain ⟨rfl, rfl⟩ := Prod.mk.inj (Option.some.inj same)
    rintro ⟨⟩⟩
  have locked := read.extend ⟨⟨.advance 1, rfl⟩, by
    rintro call phase same
    obtain ⟨rfl, rfl⟩ := Prod.mk.inj (Option.some.inj same)
    trivial⟩
  have reread := locked.extend ⟨⟨.advance 1, rfl⟩, by
    rintro call phase same
    obtain ⟨rfl, rfl⟩ := Prod.mk.inj (Option.some.inj same)
    trivial⟩
  have renamed := reread.extend ⟨⟨.advance 1, rfl⟩, by
    rintro call phase same
    obtain ⟨rfl, rfl⟩ := Prod.mk.inj (Option.some.inj same)
    rintro layer item same
    obtain ⟨rfl, rfl⟩ := Prod.mk.inj (Option.some.inj same)
    exact ⟨rfl, rfl⟩⟩
  have returned := renamed.extend ⟨⟨.respond 1, rfl⟩, trivial⟩
  exact ⟨_, _, rfl, rfl, IndicatorPlace.losesNothing_of_execution returned⟩

end DeveloperDashboard.Indicator
