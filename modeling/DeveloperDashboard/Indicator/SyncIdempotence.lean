import DeveloperDashboard.Indicator.SettledPlan
import DeveloperDashboard.Indicator.SyncCollectors

namespace DeveloperDashboard.Indicator

open Library Perl

/-!
# Syncing twice

`collectors_need_sync` is to say whether a sync writes or deletes a record, and
a sync is to leave nothing for the next one.  Both hold when each active job
can write its record and leaves it settled, and the last collector of a
configuration is not removed from it.
-/

variable {jobs : List (Option CollectorJob)} {store synced : Store}
variable {now : Scalar}

def withoutObsolete
    (jobs : List (Option CollectorJob)) (store : Store) : Store :=
  (obsoleteIndicators jobs store).foldl
    (fun store record => store.deleteIndicator (record.text .name)) store

theorem mem_obsoleteIndicators_iff {record : Record} :
    record ∈ obsoleteIndicators jobs store ↔
      store.getIndicator (record.text .name) = some record ∧
        isObsolete jobs record = true := by
  rw [obsoleteIndicators, List.mem_filter, Store.mem_listIndicators_iff]
  refine and_congr_left fun _ => ⟨?_, fun found => ⟨_, found⟩⟩
  rintro ⟨name, found⟩
  rw [(Store.isStored_getIndicator found).name]
  exact found

/-- What is read of a name once the obsolete records are deleted. -/
theorem reads_withoutObsolete (name : Text) :
    let gone := (store.getIndicator name).any (isObsolete jobs)
    (withoutObsolete jobs store).localIndicator name =
        (if gone then none else store.localIndicator name) ∧
      (withoutObsolete jobs store).nearestInherited name =
        if gone then none else store.nearestInherited name := by
  have named (record : Record)
      (member : record ∈ obsoleteIndicators jobs store) :
      record.text .name ≠ [] := by
    intro empty
    have stored :=
      Store.isStored_getIndicator (mem_obsoleteIndicators_iff.mp member).1
    have isTrue := stored.directory
    rw [empty] at isTrue
    contradiction
  have isGone :
      name ∈ (obsoleteIndicators jobs store).map (Record.text · .name) ↔
        (store.getIndicator name).any (isObsolete jobs) = true := by
    rw [List.mem_map, Option.any_eq_true]
    constructor
    · rintro ⟨record, member, rfl⟩
      obtain ⟨found, obsolete⟩ := mem_obsoleteIndicators_iff.mp member
      exact ⟨record, found, obsolete⟩
    · rintro ⟨record, found, obsolete⟩
      have same := (Store.isStored_getIndicator found).name
      refine ⟨record, mem_obsoleteIndicators_iff.mpr ⟨?_, obsolete⟩, same⟩
      rw [same]
      exact found
  obtain ⟨here, inherited⟩ :=
    Store.reads_foldl_deleteIndicator named store name
  dsimp only at here inherited ⊢
  rw [withoutObsolete, here, inherited]
  simp only [isGone, and_self]

theorem getIndicator_withoutObsolete (name : Text) :
    (withoutObsolete jobs store).getIndicator name =
      (store.getIndicator name).filter fun record =>
        !isObsolete jobs record := by
  have reads :
      let gone := (store.getIndicator name).any (isObsolete jobs)
      (withoutObsolete jobs store).localIndicator name =
          (if gone then none else store.localIndicator name) ∧
        (withoutObsolete jobs store).nearestInherited name =
          if gone then none else store.nearestInherited name :=
    reads_withoutObsolete name
  dsimp only at reads
  rw [Store.getIndicator, reads.1, reads.2]
  cases found : store.getIndicator name with
  | none => exact found
  | some record =>
    cases obsolete : isObsolete jobs record with
    | true =>
      rw [Option.any_some, obsolete, if_pos rfl, if_pos rfl,
        Option.filter_some, obsolete]
      rfl
    | false =>
      rw [Option.any_some, obsolete, if_neg Bool.false_ne_true, if_neg Bool.false_ne_true,
        ← Store.getIndicator, found, Option.filter_some, obsolete]
      rfl

theorem obsoleteIndicators_withoutObsolete :
    obsoleteIndicators jobs (withoutObsolete jobs store) = [] := by
  rw [List.eq_nil_iff_forall_not_mem]
  intro record member
  obtain ⟨found, obsolete⟩ := mem_obsoleteIndicators_iff.mp member
  rw [getIndicator_withoutObsolete, Option.filter_eq_some_iff,
    obsolete] at found
  exact absurd found.2 Bool.false_ne_true

theorem withoutObsolete_of_nil (none_ : obsoleteIndicators jobs store = []) :
    withoutObsolete jobs store = store := by
  rw [withoutObsolete, none_]
  rfl

theorem collectorsNeedSync_iff :
    collectorsNeedSync jobs store = true ↔
      (∃ entry ∈ activeJobs jobs,
          (planIn store entry.1 entry.2).needsWrite = true) ∨
        obsoleteIndicators jobs store ≠ [] := by
  unfold collectorsNeedSync obsoleteIndicators planIn
  rw [Bool.or_eq_true, List.any_eq_true, List.any_eq_true, ne_eq,
    List.filter_eq_nil_iff]
  push Not
  rfl

theorem syncCollectors_eq_ok_iff {last : Store} {written : List Written}
    (some_ : jobs ≠ []) :
    syncCollectors now jobs store = .ok (last, written) ↔
      ∃ synced saved,
        syncJobs now (activeJobs jobs) store = .ok (synced, saved) ∧
          last = withoutObsolete jobs synced ∧
          written =
            saved ++
              (obsoleteIndicators jobs synced).map Written.deleted := by
  rw [syncCollectors, if_neg some_]
  cases ran : syncJobs now (activeJobs jobs) store with
  | error message => simp
  | ok result =>
    obtain ⟨synced, saved⟩ := result
    constructor
    · intro same
      rw [Except.ok.injEq, Prod.mk.injEq] at same
      exact ⟨synced, saved, rfl, same.1.symm, same.2.symm⟩
    · rintro ⟨other, others, same, rfl, rfl⟩
      rw [Except.ok.injEq, Prod.mk.injEq] at same
      obtain ⟨rfl, rfl⟩ := same
      rfl

variable {entry : ActiveJob × Nat}

theorem isObsolete_of_active {record : Record}
    (active : entry ∈ activeJobs jobs)
    (belongs : record.text .collectorName = entry.1.name.text) :
    isObsolete jobs record = false := by
  unfold isObsolete
  by_contra obsolete
  rw [Bool.not_eq_false, Bool.and_eq_true, Bool.and_eq_true,
    decide_eq_true_eq, List.all_eq_true] at obsolete
  obtain ⟨⟨-, named⟩, absent⟩ := obsolete
  have member : entry.1 ∈ jobs.filterMap activeJob? := by
    obtain ⟨-, -, same⟩ := List.mem_zipIdx active
    rw [same]
    exact List.getElem_mem _
  refine of_decide_eq_true (absent entry.1 member) ?_
  rw [Record.trueText] at named ⊢
  split at named
  · next isTrue => rw [if_pos isTrue, belongs]
  · exact absurd rfl named

theorem text_collectorName_of_quiet
    {job : ActiveJob} {order : Nat} {localRecord inherited : Option Record}
    (quiet :
      (collectorSyncPlan job order localRecord inherited).needsWrite =
        false) :
    (comparisonExisting localRecord inherited).text .collectorName =
      job.name.text := by
  unfold collectorSyncPlan at quiet
  dsimp only at quiet
  rw [Bool.not_eq_false'] at quiet
  have isMatched : Field.collectorName ∈ matchedFields := by decide
  rw [text_of_indicatorMatches quiet isMatched (by decide), text_preserveFields,
    if_neg fun both => notMem_preserveExisting (by decide) both.1]
  rfl

variable {saved : List Written}

/-- After the loop of a sync, the records of the jobs are their own. -/
theorem SyncedJobs.belongs {entries : List (ActiveJob × Nat)}
    (ran : SyncedJobs now entries store synced saved)
    (member : entry ∈ entries) :
    ∃ record,
      synced.getIndicator entry.1.directory = some record ∧
        record.text .collectorName = entry.1.name.text := by
  have here := ran.declared entry member
  have inherited :
      synced.nearestInherited entry.1.directory =
        store.nearestInherited entry.1.directory := by
    rw [Store.nearestInherited, ran.inherited]
    rfl
  rw [Store.getIndicator, here, inherited, settledRecord]
  cases writes : (planIn store entry.1 entry.2).needsWrite with
  | true => exact ⟨_, rfl, text_collectorName_syncedRecord⟩
  | false =>
    have own := text_collectorName_of_quiet writes
    rw [if_neg Bool.false_ne_true, ← Store.getIndicator]
    rw [comparisonExisting, ← Store.getIndicator] at own
    cases found : store.getIndicator entry.1.directory with
    | none =>
      rw [found] at own
      exact absurd own.symm entry.1.named
    | some record =>
      rw [found] at own
      exact ⟨record, rfl, own⟩

/-- The plan of a declared record once the sync is through. -/
theorem needsWrite_withoutObsolete_iff
    (ran : SyncedJobs now (activeJobs jobs) store synced saved)
    (member : entry ∈ activeJobs jobs) :
    (planIn (withoutObsolete jobs synced) entry.1
        entry.2).needsWrite = false ↔
      ¬ HasTemplateConflict entry.1
          (store.localIndicator entry.1.directory)
          (store.nearestInherited entry.1.directory) ∧
        ¬ CoversLive entry.1 (store.localIndicator entry.1.directory)
          (store.nearestInherited entry.1.directory) := by
  obtain ⟨record, found, belongs⟩ := ran.belongs member
  have kept :
      (synced.getIndicator entry.1.directory).any (isObsolete jobs) =
        false := by
    rw [found]
    exact isObsolete_of_active member belongs
  have reads :
      let gone :=
        (synced.getIndicator entry.1.directory).any (isObsolete jobs)
      (withoutObsolete jobs synced).localIndicator entry.1.directory =
          (if gone then none
          else synced.localIndicator entry.1.directory) ∧
        (withoutObsolete jobs synced).nearestInherited entry.1.directory =
          if gone then none
          else synced.nearestInherited entry.1.directory :=
    reads_withoutObsolete entry.1.directory
  dsimp only at reads
  rw [kept, if_neg Bool.false_ne_true, if_neg Bool.false_ne_true, ran.declared entry member,
    Store.nearestInherited, Store.nearestInherited, ran.inherited] at reads
  have after :
      planIn (withoutObsolete jobs synced) entry.1 entry.2 =
        collectorSyncPlan entry.1 entry.2
          (settledRecord now store entry.1 entry.2)
          (store.nearestInherited entry.1.directory) := by
    rw [planIn, reads.1, Store.nearestInherited, reads.2]
    rfl
  rw [after, settledRecord, planIn]
  exact needsWrite_after_iff
    (fun _ found => Store.isStored_localIndicator found)
    fun _ found => Store.isStored_nearestInherited found

/-- `collectors_need_sync` says whether a sync writes or deletes. -/
def IsExact (jobs : List (Option CollectorJob)) (store : Store) : Prop :=
  ∀ now,
    collectorsNeedSync jobs store = true ↔
      ∃ last written,
        syncCollectors now jobs store = .ok (last, written) ∧
          written ≠ []

/-- After a sync the next one does nothing, and none is needed. -/
def IsIdempotent
    (jobs : List (Option CollectorJob)) (store : Store) : Prop :=
  ∀ now later last written,
    syncCollectors now jobs store = .ok (last, written) →
      syncCollectors later jobs last = .ok (last, []) ∧
        collectorsNeedSync jobs last = false

/--
Every active job can write its record and leaves it settled, and the last
collector was not removed from the configuration.
-/
structure SyncSettles
    (jobs : List (Option CollectorJob)) (store : Store) : Prop where
  named :
    ∀ entry ∈ activeJobs jobs, isTrue entry.1.directory = true
  removed : jobs = [] → obsoleteIndicators [] store = []
  agrees :
    ∀ entry ∈ activeJobs jobs,
      ¬ HasTemplateConflict entry.1
        (store.localIndicator entry.1.directory)
        (store.nearestInherited entry.1.directory)
  covered :
    ∀ entry ∈ activeJobs jobs,
      ¬ CoversLive entry.1 (store.localIndicator entry.1.directory)
        (store.nearestInherited entry.1.directory)

theorem named_of_syncedJobs
    (ran : SyncedJobs now (activeJobs jobs) store synced saved)
    (member : entry ∈ activeJobs jobs) :
    isTrue entry.1.directory = true := by
  obtain ⟨record, found, -⟩ := ran.belongs member
  exact (Store.isStored_getIndicator found).directory

/-- What is needed for a sync is what it then does, if it returns. -/
theorem isExact_of_named (distinct : DistinctNames jobs) (some_ : jobs ≠ [])
    (named : ∀ entry ∈ activeJobs jobs, isTrue entry.1.directory = true) :
    IsExact jobs store := by
  intro now
  obtain ⟨synced, saved, loop⟩ := syncJobs_returns named now store
  have ran : SyncedJobs now (activeJobs jobs) store synced saved :=
    syncedJobs_of_syncJobs distinct loop
  have result := (syncCollectors_eq_ok_iff some_).mpr
    ⟨synced, saved, loop, rfl, rfl⟩
  rw [collectorsNeedSync_iff]
  constructor
  · intro need
    refine ⟨_, _, result, ?_⟩
    rw [ne_eq, List.append_eq_nil_iff, List.map_eq_nil_iff, not_and_or]
    by_cases writes :
        ∃ entry ∈ activeJobs jobs,
          (planIn store entry.1 entry.2).needsWrite = true
    · exact .inl (ran.busy writes)
    · obtain ⟨same, -⟩ :=
        ran.quiet fun entry member =>
          Bool.eq_false_iff.mpr fun write => writes ⟨entry, member, write⟩
      rw [same]
      exact .inr (need.resolve_left writes)
  · rintro ⟨last, written, other, some_⟩
    rw [result, Except.ok.injEq, Prod.mk.injEq] at other
    obtain ⟨rfl, rfl⟩ := other
    by_contra quiet
    rw [not_or, not_exists] at quiet
    obtain ⟨rfl, rfl⟩ :=
      ran.quiet fun entry member =>
        Bool.eq_false_iff.mpr fun write => quiet.1 entry ⟨member, write⟩
    exact some_ (by rw [not_not.mp quiet.2]; rfl)

theorem collectorsNeedSync_after_iff {last : Store} {written : List Written}
    (distinct : DistinctNames jobs) (some_ : jobs ≠ [])
    (result : syncCollectors now jobs store = .ok (last, written)) :
    collectorsNeedSync jobs last = false ↔ SyncSettles jobs store := by
  obtain ⟨synced, saved, loop, rfl, -⟩ :=
    (syncCollectors_eq_ok_iff some_).mp result
  have ran : SyncedJobs now (activeJobs jobs) store synced saved :=
    syncedJobs_of_syncJobs distinct loop
  rw [Bool.eq_false_iff, ne_eq, collectorsNeedSync_iff,
    obsoleteIndicators_withoutObsolete, or_iff_left (fun none_ => none_ rfl)]
  constructor
  · intro quiet
    have settled (entry : ActiveJob × Nat)
        (member : entry ∈ activeJobs jobs) :=
      (needsWrite_withoutObsolete_iff ran member).mp
        (Bool.eq_false_iff.mpr fun write => quiet ⟨entry, member, write⟩)
    exact
      ⟨fun entry member => named_of_syncedJobs ran member,
        fun none_ => absurd none_ some_,
        fun entry member => (settled entry member).1,
        fun entry member => (settled entry member).2⟩
  · rintro settles ⟨entry, member, write⟩
    rw [(needsWrite_withoutObsolete_iff ran member).mpr
      ⟨settles.agrees entry member, settles.covered entry member⟩] at write
    contradiction

theorem syncCollectors_of_quiet (distinct : DistinctNames jobs)
    (some_ : jobs ≠ [])
    (named : ∀ entry ∈ activeJobs jobs, isTrue entry.1.directory = true)
    (quiet : collectorsNeedSync jobs store = false) (now : Scalar) :
    syncCollectors now jobs store = .ok (store, []) := by
  obtain ⟨synced, saved, loop⟩ := syncJobs_returns named now store
  have ran : SyncedJobs now (activeJobs jobs) store synced saved :=
    syncedJobs_of_syncJobs distinct loop
  rw [Bool.eq_false_iff, ne_eq, collectorsNeedSync_iff, not_or,
    not_exists] at quiet
  obtain ⟨idle, none_⟩ := quiet
  obtain ⟨rfl, rfl⟩ :=
    ran.quiet fun entry member =>
      Bool.eq_false_iff.mpr fun write => idle entry ⟨member, write⟩
  have none_ := not_not.mp none_
  refine (syncCollectors_eq_ok_iff some_).mpr
    ⟨synced, [], loop, (withoutObsolete_of_nil none_).symm, ?_⟩
  rw [none_]
  rfl

theorem named_of_quiet
    (quiet : (planIn store entry.1 entry.2).needsWrite = false) :
    isTrue entry.1.directory = true := by
  have own := text_collectorName_of_quiet quiet
  rw [comparisonExisting, ← Store.getIndicator] at own
  cases found : store.getIndicator entry.1.directory with
  | none =>
    rw [found] at own
    exact absurd own.symm entry.1.named
  | some record => exact (Store.isStored_getIndicator found).directory

/-- Without jobs, a sync does nothing. -/
theorem isExact_and_isIdempotent_nil :
    (IsExact [] store ∧ IsIdempotent [] store) ↔
      obsoleteIndicators [] store = [] := by
  have need :
      collectorsNeedSync [] store = true ↔
        obsoleteIndicators [] store ≠ [] := by
    rw [collectorsNeedSync_iff]
    refine or_iff_right ?_
    rintro ⟨entry, member, -⟩
    contradiction
  constructor
  · rintro ⟨exact_, -⟩
    by_contra some_
    obtain ⟨last, written, result, wrote⟩ :=
      (exact_ .null).mp (need.mpr some_)
    rw [syncCollectors, if_pos rfl, Except.ok.injEq, Prod.mk.injEq] at result
    exact wrote result.2.symm
  · intro none_
    constructor
    · intro now
      rw [need, none_]
      refine iff_of_false (fun some_ => some_ rfl) ?_
      rintro ⟨last, written, result, wrote⟩
      rw [syncCollectors, if_pos rfl, Except.ok.injEq,
        Prod.mk.injEq] at result
      exact wrote result.2.symm
    · intro now later last written result
      rw [syncCollectors, if_pos rfl, Except.ok.injEq,
        Prod.mk.injEq] at result
      obtain ⟨rfl, -⟩ := result
      refine ⟨rfl, Bool.eq_false_iff.mpr fun needed => ?_⟩
      exact need.mp needed none_

/-- A job that declares an indicator of its own name. -/
def plainJob : CollectorJob where
  name := some (.string "disk".toList)
  disable := none
  indicator := some Record.empty

def goneRecord : Record
  | .name => some (.string "disk".toList)
  | .status => some (.string "ok".toList)
  | .collectorName => some (.string "disk".toList)
  | .managedByCollector => some (.number ['1'])
  | _ => none

/-- The store that the last collector of a configuration leaves. -/
def goneStore : Store :=
  Store.empty.put "disk".toList goneRecord
    ⟨rfl, rfl, by decide⟩

end DeveloperDashboard.Indicator
