import DeveloperDashboard.Indicator.DeclaredRecord
import DeveloperDashboard.Indicator.SyncIdempotence
import DeveloperDashboard.Library.Transition

namespace DeveloperDashboard.Indicator

open Library Perl

/-!
# Histories of syncs

A configuration is edited and synced again and again, and in between other
writers change the store without overriding what is shown.  After a sync the
managed records are those of its jobs, as the first sync would have written
them, when no edit takes away what an earlier configuration has declared.
-/

def IsDeclared (jobs : List (Option CollectorJob)) (name : Text) : Prop :=
  ∃ entry ∈ activeJobs jobs, entry.1.directory = name

/--
The managed records of a store are those that the jobs declare, and show what
they show after a sync into an empty store.  An undefined field shows the
empty string.
-/
structure ShowsDeclared
    (jobs : List (Option CollectorJob)) (store : Store) : Prop where
  managed :
    ∀ name,
      (∃ record, store.getIndicator name = some record ∧
            record.truthy .managedByCollector = true) ↔
        IsDeclared jobs name
  shown :
    ∀ now,
      ∃ fresh written,
        syncCollectors now jobs .empty = .ok (fresh, written) ∧
          ∀ name record,
            store.getIndicator name = some record →
              record.truthy .managedByCollector = true →
                ∃ declared,
                  fresh.getIndicator name = some declared ∧
                    ∀ field ∈ displayedFields,
                      record.text field = declared.text field

/-- No record of a store shows anything but what it is configured with. -/
def NothingOverridden (store : Store) : Prop :=
  ∀ name record,
    store.localIndicator name = some record ∨
        store.nearestInherited name = some record →
      AsConfigured record

/-- A sync that returned, or a change by someone else. -/
inductive HistoryEvent where
  | synced (jobs : List (Option CollectorJob))
  | changed

/-- Syncs of any job lists, and between them changes that override nothing. -/
def syncHistory : TransitionSystem Store HistoryEvent where
  initial := NothingOverridden
  step store event next :=
    match event with
    | .synced jobs =>
      DistinctNames jobs ∧
        ∃ now written,
          syncCollectors now jobs store = .ok (next, written)
    | .changed => NothingOverridden next

/-- The sync finds no managed record that it would leave behind. -/
structure SyncReplaces
    (jobs : List (Option CollectorJob)) (store : Store) : Prop where
  emptied :
    jobs = [] →
      ∀ name record,
        store.getIndicator name = some record →
          record.truthy .managedByCollector = false
  renamed :
    ∀ name record,
      store.getIndicator name = some record →
        record.truthy .managedByCollector = true →
          ¬ IsDeclared jobs name →
            isObsolete jobs record = true
  removed :
    ∀ entry ∈ activeJobs jobs,
      AddsNothing entry.1
        (effectiveExisting entry.1
          (store.localIndicator entry.1.directory)
          (store.nearestInherited entry.1.directory))
  icons :
    ∀ entry ∈ activeJobs jobs,
      ¬ HasStaleIcon entry.1 (store.localIndicator entry.1.directory)
        (store.nearestInherited entry.1.directory)

def Replaces (store : Store) : HistoryEvent → Prop
  | .synced jobs => SyncReplaces jobs store
  | .changed => True

variable {jobs : List (Option CollectorJob)} {store synced last : Store}
variable {now : Scalar} {saved written : List Written}

/-- The record of a job is found as its plan leaves it. -/
theorem SyncedJobs.getIndicator {entries : List (ActiveJob × Nat)}
    (ran : SyncedJobs now entries store synced saved)
    {entry : ActiveJob × Nat} (member : entry ∈ entries) :
    synced.getIndicator entry.1.directory =
      some
        (recordAfter entry.1 entry.2 now
          (store.localIndicator entry.1.directory)
          (store.nearestInherited entry.1.directory)) := by
  have here := ran.declared entry member
  have inherited :
      synced.nearestInherited entry.1.directory =
        store.nearestInherited entry.1.directory := by
    rw [Store.nearestInherited, ran.inherited]
    rfl
  obtain ⟨record, found, -⟩ := ran.belongs member
  rw [Store.getIndicator, here, inherited, settledRecord] at found ⊢
  rw [recordAfter, ← planIn]
  cases writes : (planIn store entry.1 entry.2).needsWrite with
  | true => rfl
  | false =>
    rw [writes, if_neg Bool.false_ne_true] at found
    rw [if_neg Bool.false_ne_true, if_neg Bool.false_ne_true,
      comparisonExisting, found]
    rfl

theorem SyncedJobs.getIndicator_other {entries : List (ActiveJob × Nat)}
    (ran : SyncedJobs now entries store synced saved) {name : Text}
    (other : name ∉ entries.map fun entry => entry.1.directory) :
    synced.getIndicator name = store.getIndicator name := by
  rw [Store.getIndicator, ran.others name other, Store.nearestInherited,
    ran.inherited]
  rfl

theorem text_recordAfter_fixed {job : ActiveJob} {order : Nat}
    {localRecord inherited : Option Record} {field : Field}
    (fixed : field ∈ [Field.managedByCollector, .collectorName]) :
    (recordAfter job order now localRecord inherited).text field =
      (freshCandidate job order).text field := by
  have matched :
      field ∈ matchedFields ∧ field ≠ .name ∧ field ≠ .collectorOrder ∧
        field ∉
          [Field.status, .updatedAt, .stale, .label, .alias_,
            .pageStatusIcon, .icon, .iconTemplate] := by
    simp only [List.mem_cons, List.not_mem_nil, or_false] at fixed
    rcases fixed with rfl | rfl <;> decide
  obtain ⟨isMatched, notName, notOrder, other⟩ := matched
  rcases text_recordAfter isMatched notName notOrder with
    same | ⟨preserved, -⟩
  · refine same.trans ?_
    simp only [List.mem_cons, List.not_mem_nil, or_false] at fixed
    rcases fixed with rfl | rfl <;> rfl
  · exact absurd preserved (notMem_preserveExisting other)

theorem SyncedJobs.getIndicator_last
    (ran : SyncedJobs now (activeJobs jobs) store synced saved)
    {entry : ActiveJob × Nat} (member : entry ∈ activeJobs jobs) :
    (withoutObsolete jobs synced).getIndicator entry.1.directory =
      some
        (recordAfter entry.1 entry.2 now
          (store.localIndicator entry.1.directory)
          (store.nearestInherited entry.1.directory)) := by
  rw [getIndicator_withoutObsolete, ran.getIndicator member,
    Option.filter_some, isObsolete_of_active member]
  · rfl
  · rw [text_recordAfter_fixed (by decide)]
    rfl

theorem managed_withoutObsolete_iff (replaces : SyncReplaces jobs store)
    (ran : SyncedJobs now (activeJobs jobs) store synced saved)
    (name : Text) :
    (∃ record,
        (withoutObsolete jobs synced).getIndicator name = some record ∧
          record.truthy .managedByCollector = true) ↔
      IsDeclared jobs name := by
  constructor
  · rintro ⟨record, found, managed⟩
    by_contra undeclared
    rw [getIndicator_withoutObsolete, Option.filter_eq_some_iff] at found
    obtain ⟨found, kept⟩ := found
    have other :
        name ∉ (activeJobs jobs).map fun entry => entry.1.directory := by
      intro member
      obtain ⟨entry, active, same⟩ := List.mem_map.mp member
      exact undeclared ⟨entry, active, same⟩
    rw [ran.getIndicator_other other] at found
    rw [replaces.renamed name record found managed undeclared] at kept
    contradiction
  · rintro ⟨entry, member, rfl⟩
    refine ⟨_, ran.getIndicator_last member, ?_⟩
    rw [Record.truthy, text_recordAfter_fixed (by decide)]
    rfl

theorem addsNothing_empty (job : ActiveJob) :
    AddsNothing job Record.empty where
  texts := fun _ _ => .inr rfl
  prompt := .inr (.inl rfl)

theorem NothingOverridden.effectiveExisting
    (clean : NothingOverridden store) (job : ActiveJob) :
    AsConfigured
      (effectiveExisting job (store.localIndicator job.directory)
        (store.nearestInherited job.directory)) := by
  rcases effectiveExisting_cases job
      (store.localIndicator job.directory)
      (store.nearestInherited job.directory) with
    ⟨none_, -⟩ | ⟨-, here⟩ | ⟨-, there⟩
  · rw [none_]
    exact asConfigured_empty
  · exact clean _ _ (.inl here)
  · exact clean _ _ (.inr there)

theorem shown_withoutObsolete (distinct : DistinctNames jobs)
    (some_ : jobs ≠ []) (clean : NothingOverridden store)
    (replaces : SyncReplaces jobs store)
    (ran : SyncedJobs now (activeJobs jobs) store synced saved)
    (later : Scalar) :
    ∃ fresh written,
      syncCollectors later jobs .empty = .ok (fresh, written) ∧
        ∀ entry ∈ activeJobs jobs,
          ∃ record declared,
            (withoutObsolete jobs synced).getIndicator
                entry.1.directory = some record ∧
              fresh.getIndicator entry.1.directory = some declared ∧
              ∀ field ∈ displayedFields,
                record.text field = declared.text field := by
  have named (entry : ActiveJob × Nat) (member : entry ∈ activeJobs jobs) :
      isTrue entry.1.directory = true :=
    named_of_syncedJobs ran member
  obtain ⟨first, seeded, loop⟩ := syncJobs_returns named later .empty
  have freshRan :
      SyncedJobs later (activeJobs jobs) .empty first seeded :=
    syncedJobs_of_syncJobs distinct loop
  refine ⟨_, _,
    (syncCollectors_eq_ok_iff some_).mpr ⟨first, seeded, loop, rfl, rfl⟩,
    fun entry member => ?_⟩
  refine ⟨_, _, ran.getIndicator_last member,
    freshRan.getIndicator_last member, fun field displayed => ?_⟩
  calc
    _ = (freshCandidate entry.1 entry.2).text field :=
      text_recordAfter_displayed (clean.effectiveExisting entry.1)
        (replaces.removed entry member) (replaces.icons entry member)
        displayed
    _ = _ := by
      have clean :
          AsConfigured (effectiveExisting entry.1 none none) :=
        asConfigured_empty
      have adds :
          AddsNothing entry.1 (effectiveExisting entry.1 none none) :=
        addsNothing_empty entry.1
      refine (text_recordAfter_displayed clean adds ?_ displayed).symm
      rintro ⟨placeholder, live, here, -⟩
      contradiction

theorem showsDeclared_of_sync (distinct : DistinctNames jobs)
    (clean : NothingOverridden store) (replaces : SyncReplaces jobs store)
    (result : syncCollectors now jobs store = .ok (last, written)) :
    ShowsDeclared jobs last := by
  by_cases none_ : jobs = []
  · subst none_
    rw [syncCollectors, if_pos rfl, Except.ok.injEq, Prod.mk.injEq] at result
    obtain ⟨rfl, -⟩ := result
    have unmanaged (name : Text) (record : Record)
        (found : store.getIndicator name = some record) :
        record.truthy .managedByCollector ≠ true := by
      rw [replaces.emptied rfl name record found]
      exact Bool.false_ne_true
    constructor
    · intro name
      constructor
      · rintro ⟨record, found, managed⟩
        exact absurd managed (unmanaged name record found)
      · rintro ⟨entry, member, -⟩
        contradiction
    · intro later
      exact ⟨.empty, [], rfl, fun name record found managed =>
        absurd managed (unmanaged name record found)⟩
  · obtain ⟨synced, saved, loop, rfl, -⟩ :=
      (syncCollectors_eq_ok_iff none_).mp result
    have ran : SyncedJobs now (activeJobs jobs) store synced saved :=
      syncedJobs_of_syncJobs distinct loop
    constructor
    · exact managed_withoutObsolete_iff replaces ran
    · intro later
      obtain ⟨fresh, seeded, first, shows⟩ :=
        shown_withoutObsolete distinct none_ clean replaces ran later
      refine ⟨fresh, seeded, first, fun name record found managed => ?_⟩
      obtain ⟨entry, member, rfl⟩ :=
        (managed_withoutObsolete_iff replaces ran name).mp
          ⟨record, found, managed⟩
      obtain ⟨own, declared, here, there, same⟩ := shows entry member
      rw [found, Option.some.injEq] at here
      rw [here]
      exact ⟨declared, there, same⟩

theorem nothingOverridden_of_sync (distinct : DistinctNames jobs)
    (clean : NothingOverridden store) (replaces : SyncReplaces jobs store)
    (result : syncCollectors now jobs store = .ok (last, written)) :
    NothingOverridden last := by
  by_cases none_ : jobs = []
  · subst none_
    rw [syncCollectors, if_pos rfl, Except.ok.injEq, Prod.mk.injEq] at result
    obtain ⟨rfl, -⟩ := result
    exact clean
  obtain ⟨synced, saved, loop, rfl, -⟩ :=
    (syncCollectors_eq_ok_iff none_).mp result
  have ran : SyncedJobs now (activeJobs jobs) store synced saved :=
    syncedJobs_of_syncJobs distinct loop
  intro name record read
  have reads :
      let gone := (synced.getIndicator name).any (isObsolete jobs)
      (withoutObsolete jobs synced).localIndicator name =
          (if gone then none else synced.localIndicator name) ∧
        (withoutObsolete jobs synced).nearestInherited name =
          if gone then none else synced.nearestInherited name :=
    reads_withoutObsolete name
  dsimp only at reads
  rw [reads.1, reads.2] at read
  rcases read with here | there
  · rw [Option.ite_none_left_eq_some] at here
    obtain ⟨-, here⟩ := here
    by_cases declared :
        name ∈ (activeJobs jobs).map fun entry => entry.1.directory
    · obtain ⟨entry, member, rfl⟩ := List.mem_map.mp declared
      rw [ran.declared entry member, settledRecord] at here
      split at here
      · next writes =>
          rw [Option.some.injEq] at here
          rw [← here]
          exact asConfigured_syncedRecord
            (clean.effectiveExisting entry.1) writes
            (replaces.removed entry member) (replaces.icons entry member)
      · exact clean _ _ (.inl here)
    · rw [ran.others name declared] at here
      exact clean _ _ (.inl here)
  · rw [Option.ite_none_left_eq_some] at there
    have inherited := there.2
    rw [Store.nearestInherited, ran.inherited] at inherited
    exact clean _ _ (.inr inherited)

theorem nothingOverridden_of_execution {trace : List HistoryEvent}
    (ran : (syncHistory.restrict Replaces).Execution trace store) :
    NothingOverridden store := by
  refine ran.invariant (fun _ => NothingOverridden) id ?_
  rintro trace store event next clean ⟨step, replaces⟩
  cases event with
  | synced jobs =>
    obtain ⟨distinct, now, written, result⟩ := step
    exact nothingOverridden_of_sync distinct clean replaces result
  | changed => exact step

theorem nothingOverridden_empty : NothingOverridden .empty := by
  rintro name record (here | there) <;> contradiction

theorem syncReplaces_empty : SyncReplaces jobs .empty where
  emptied _ name record found := by contradiction
  renamed name record found := by contradiction
  removed entry _ := addsNothing_empty entry.1
  icons entry _ := by
    rintro ⟨placeholder, live, here, -⟩
    contradiction

/-- A job of the collector `disk` whose indicator has a name of its own. -/
def namedJob (name : Text) : CollectorJob where
  name := some (.string "disk".toList)
  disable := none
  indicator :=
    some fun
      | .name => some (.string name)
      | _ => none

/-- The stores after the two syncs around a change of the name. -/
def renamedStore : Option Store :=
  match syncCollectors .null [some (namedJob "old".toList)] .empty with
  | .error _ => none
  | .ok (first, _) =>
    match syncCollectors .null [some (namedJob "new".toList)] first with
    | .error _ => none
    | .ok (second, _) => some second

end DeveloperDashboard.Indicator
