import DeveloperDashboard.Indicator.IndicatorStore

namespace DeveloperDashboard.Indicator

open Library Perl

/-!
# What a sync does to the store

The jobs of a sync declare indicators of different names, so each job finds the
records of its name as they were when the sync began, and a sync leaves of
them what its plan says.  Of the other records it deletes the obsolete ones, in
every layer.
-/

variable {record : Record}

namespace Store

variable {store : Store} {name other : Text}

@[simp] theorem localIndicator_put_self (stored : IsStored name record) :
    (store.put name record stored).localIndicator name = some record :=
  Entries.lookup_store_self _ _ _

theorem localIndicator_put_of_ne (stored : IsStored name record)
    (different : name ≠ other) :
    (store.put name record stored).localIndicator other =
      store.localIndicator other :=
  Entries.lookup_store_of_ne _ different _

theorem read_remove (layer : Layer) :
    (layer.remove name).read other =
      if other = name then none else layer.read other := by
  unfold Layer.read Layer.remove
  by_cases same : other = name
  · rw [if_pos same, same]
    exact Entries.lookup_remove_self _ _
  · rw [if_neg same]
    exact Entries.lookup_remove_of_ne _ (Ne.symm same)

theorem localIndicator_deleteIndicator (named : name ≠ []) :
    (store.deleteIndicator name).localIndicator other =
      if other = name then none else store.localIndicator other := by
  rw [deleteIndicator, if_neg named]
  exact read_remove store.writable

theorem nearestInherited_deleteIndicator (named : name ≠ []) :
    (store.deleteIndicator name).nearestInherited other =
      if other = name then none else store.nearestInherited other := by
  rw [deleteIndicator, if_neg named]
  unfold nearestInherited
  rw [List.findSome?_map]
  by_cases same : other = name
  · rw [if_pos same, List.findSome?_eq_none_iff]
    intro layer _
    rw [Function.comp_apply, read_remove, if_pos same]
  · rw [if_neg same]
    congr 1
    funext layer
    rw [Function.comp_apply, read_remove, if_neg same]

theorem reads_foldl_deleteIndicator
    {gone : List Record} (named : ∀ record ∈ gone, record.text .name ≠ [])
    (store : Store) (other : Text) :
    let last :=
      gone.foldl
        (fun store record => store.deleteIndicator (record.text .name))
        store
    (last.localIndicator other =
        if other ∈ gone.map (Record.text · .name) then none
        else store.localIndicator other) ∧
      last.nearestInherited other =
        if other ∈ gone.map (Record.text · .name) then none
        else store.nearestInherited other := by
  induction gone generalizing store with
  | nil => exact ⟨rfl, rfl⟩
  | cons record rest ih =>
    obtain ⟨here, later⟩ := List.forall_mem_cons.mp named
    obtain ⟨localRecord, inherited⟩ :=
      ih later (store.deleteIndicator (record.text .name))
    dsimp only at localRecord inherited ⊢
    rw [List.foldl_cons, localRecord, inherited,
      localIndicator_deleteIndicator here,
      nearestInherited_deleteIndicator here, List.map_cons]
    by_cases same : other = record.text .name
    · simp [same]
    · by_cases member : other ∈ rest.map (Record.text · .name)
      · simp [member]
      · simp [member, same]

theorem mem_listIndicators_iff :
    record ∈ store.listIndicators ↔
      ∃ name, store.getIndicator name = some record := by
  unfold listIndicators
  rw [List.mem_filterMap]
  constructor
  · rintro ⟨name, -, found⟩
    exact ⟨name, found⟩
  · rintro ⟨name, found⟩
    refine ⟨name, ?_, found⟩
    rw [directories, List.mem_dedup, List.mem_flatMap]
    rcases Option.or_eq_some_iff.mp found with here | ⟨-, inherited⟩
    · exact ⟨store.writable, List.mem_cons_self,
        List.mem_map.mpr ⟨_, Entries.mem_of_lookup here, rfl⟩⟩
    · obtain ⟨layer, member, read⟩ :=
        List.exists_of_findSome?_eq_some inherited
      exact ⟨layer, List.mem_cons_of_mem _ member,
        List.mem_map.mpr ⟨_, Entries.mem_of_lookup read, rfl⟩⟩

end Store

variable {store last : Store} {now : Scalar}

def planIn (store : Store) (job : ActiveJob) (order : Nat) : SyncPlan :=
  collectorSyncPlan job order (store.localIndicator job.directory)
    (store.nearestInherited job.directory)

/-- The local record that the plan of a job leads to. -/
def settledRecord
    (now : Scalar) (store : Store) (job : ActiveJob) (order : Nat) :
    Option Record :=
  if (planIn store job order).needsWrite then
    some
      (syncedRecord job order now (store.localIndicator job.directory)
        (store.nearestInherited job.directory))
  else store.localIndicator job.directory

def DistinctNames (jobs : List (Option CollectorJob)) : Prop :=
  ((activeJobs jobs).map fun entry => entry.1.directory).Nodup

structure SyncedJobs
    (now : Scalar) (jobs : List (ActiveJob × Nat)) (store last : Store)
    (written : List Written) :
    Prop where
  declared :
    ∀ entry ∈ jobs,
      last.localIndicator entry.1.directory =
        settledRecord now store entry.1 entry.2
  others :
    ∀ name, name ∉ jobs.map (fun entry => entry.1.directory) →
      last.localIndicator name = store.localIndicator name
  inherited : last.inherited = store.inherited
  quiet :
    (∀ entry ∈ jobs, (planIn store entry.1 entry.2).needsWrite = false) →
      last = store ∧ written = []
  busy :
    (∃ entry ∈ jobs, (planIn store entry.1 entry.2).needsWrite = true) →
      written ≠ []

theorem planIn_congr {job : ActiveJob} {order : Nat}
    (same :
      last.localIndicator job.directory =
        store.localIndicator job.directory)
    (inherited : last.inherited = store.inherited) :
    planIn last job order = planIn store job order ∧
      settledRecord now last job order =
        settledRecord now store job order := by
  have nearest :
      last.nearestInherited job.directory =
        store.nearestInherited job.directory := by
    rw [Store.nearestInherited, inherited]
    rfl
  have plan : planIn last job order = planIn store job order := by
    rw [planIn, same, nearest]
    rfl
  refine ⟨plan, ?_⟩
  rw [settledRecord, plan, same, nearest]
  rfl

/-- One job writes its own record only, when its plan says so. -/
theorem syncedJobs_of_syncJob
    {job : ActiveJob} {order : Nat} {written : List Written}
    (ran : syncJob now store job order = .ok (last, written)) :
    SyncedJobs now [(job, order)] store last written := by
  unfold syncJob at ran
  dsimp only at ran
  split at ran
  · next writes =>
      have writes : (planIn store job order).needsWrite = true := writes
      split at ran
      · next isTrue =>
          rw [Except.ok.injEq, Prod.mk.injEq] at ran
          obtain ⟨rfl, rfl⟩ := ran
          constructor
          · intro entry member
            obtain rfl := List.mem_singleton.mp member
            rw [settledRecord, if_pos writes]
            exact Store.localIndicator_put_self _
          · intro name other
            refine Store.localIndicator_put_of_ne _ ?_
            rintro rfl
            exact other List.mem_cons_self
          · rfl
          · intro idle
            rw [idle _ List.mem_cons_self] at writes
            contradiction
          · exact fun _ => List.cons_ne_nil _ _
      · cases ran
  · next idle =>
      have idle : (planIn store job order).needsWrite = false :=
        Bool.eq_false_iff.mpr idle
      rw [Except.ok.injEq, Prod.mk.injEq] at ran
      obtain ⟨rfl, rfl⟩ := ran
      constructor
      · intro entry member
        obtain rfl := List.mem_singleton.mp member
        rw [settledRecord, idle]
        rfl
      · exact fun _ _ => rfl
      · rfl
      · exact fun _ => ⟨rfl, rfl⟩
      · rintro ⟨entry, member, writes⟩
        obtain rfl := List.mem_singleton.mp member
        rw [idle] at writes
        contradiction

theorem SyncedJobs.cons
    {entry : ActiveJob × Nat} {rest : List (ActiveJob × Nat)}
    {next : Store} {first others : List Written}
    (here : SyncedJobs now [entry] store next first)
    (later : SyncedJobs now rest next last others)
    (fresh :
      entry.1.directory ∉ rest.map fun entry => entry.1.directory) :
    SyncedJobs now (entry :: rest) store last (first ++ others) := by
  have untouched (other : ActiveJob × Nat) (member : other ∈ rest) :
      next.localIndicator other.1.directory =
        store.localIndicator other.1.directory := by
    refine here.others _ fun same => fresh ?_
    rw [List.map_singleton, List.mem_singleton] at same
    exact same ▸ List.mem_map.mpr ⟨other, member, rfl⟩
  have plans (other : ActiveJob × Nat) (member : other ∈ rest) :
      planIn next other.1 other.2 = planIn store other.1 other.2 ∧
        settledRecord now next other.1 other.2 =
          settledRecord now store other.1 other.2 :=
    planIn_congr (untouched other member) here.inherited
  constructor
  · intro other member
    rcases List.mem_cons.mp member with rfl | member
    · rw [later.others _ fresh]
      exact here.declared _ List.mem_cons_self
    · rw [later.declared other member, (plans other member).2]
  · intro name absent
    rw [List.map_cons, List.mem_cons, not_or] at absent
    rw [later.others name absent.2]
    exact here.others name (by simpa using absent.1)
  · rw [later.inherited, here.inherited]
  · intro idle
    obtain ⟨idleHere, idleLater⟩ := List.forall_mem_cons.mp idle
    obtain ⟨rfl, rfl⟩ :=
      here.quiet fun other member => by
        rw [List.mem_singleton.mp member]
        exact idleHere
    exact later.quiet idleLater
  · rintro ⟨other, member, writes⟩
    rw [ne_eq, List.append_eq_nil_iff, not_and_or]
    rcases List.mem_cons.mp member with rfl | member
    · exact .inl (here.busy ⟨other, List.mem_cons_self, writes⟩)
    · rw [← (plans other member).1] at writes
      exact .inr (later.busy ⟨other, member, writes⟩)

theorem syncedJobs_of_syncJobs
    {jobs : List (ActiveJob × Nat)} {written : List Written}
    (distinct : (jobs.map fun entry => entry.1.directory).Nodup)
    (ran : syncJobs now jobs store = .ok (last, written)) :
    SyncedJobs now jobs store last written := by
  induction jobs generalizing store written with
  | nil =>
    rw [syncJobs, Except.ok.injEq, Prod.mk.injEq] at ran
    obtain ⟨rfl, rfl⟩ := ran
    exact ⟨nofun, fun _ _ => rfl, rfl, fun _ => ⟨rfl, rfl⟩, by simp⟩
  | cons entry rest ih =>
    rw [List.map_cons, List.nodup_cons] at distinct
    rw [syncJobs] at ran
    split at ran
    · cases ran
    · next next first step =>
        split at ran
        · cases ran
        · next final others rest' =>
            rw [Except.ok.injEq, Prod.mk.injEq] at ran
            obtain ⟨rfl, rfl⟩ := ran
            exact (syncedJobs_of_syncJob step).cons
              (ih distinct.2 rest') distinct.1

theorem syncJobs_returns {jobs : List (ActiveJob × Nat)}
    (named : ∀ entry ∈ jobs, isTrue entry.1.directory = true)
    (now : Scalar) (store : Store) :
    ∃ last written, syncJobs now jobs store = .ok (last, written) := by
  induction jobs generalizing store with
  | nil => exact ⟨store, [], rfl⟩
  | cons entry rest ih =>
    obtain ⟨job, order⟩ := entry
    obtain ⟨here, later⟩ := List.forall_mem_cons.mp named
    have step :
        ∃ next first, syncJob now store job order = .ok (next, first) := by
      unfold syncJob
      dsimp only
      split
      · exact ⟨_, _, rfl⟩
      · exact ⟨_, _, rfl⟩
    obtain ⟨next, first, step⟩ := step
    obtain ⟨last, others, ran⟩ := ih later next
    exact ⟨last, first ++ others, by
      simp only [syncJobs, step, ran]⟩

end DeveloperDashboard.Indicator
