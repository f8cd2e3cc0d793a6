import DeveloperDashboard.Perl.Encoding
import DeveloperDashboard.Library.AgedStore

namespace DeveloperDashboard.Page

open Library Perl

/-!
# The cache of literal nav fragments

A page store keeps the bodies of small nav files that hold no template tags:
the entries by file, the files in the order in which they were stored, and a
counter of the bytes of the bodies.
-/

/-- A cached body, and the stat fields of the file it was read from. -/
structure NavEntry where
  fingerprint : Text
  body : HeldString
  deriving DecidableEq

/-- The hash in `_nav_fragment_cache`. -/
structure NavCache where
  bytes : Int
  entries : Entries Text NavEntry
  order : List Text
  deriving DecidableEq

namespace NavCache

def created : NavCache where
  bytes := 0
  entries := []
  order := []

def maxFiles : Nat :=
  128

/-- How many bytes the counter may reach. -/
def maxBytes : Nat :=
  4194304

/-- What removing an entry takes off the counter. -/
def uncountedBytes (entry : NavEntry) : Nat :=
  entry.body.orEmpty.byteLength

/-- Whether the loop goes on evicting. -/
def isFull (cache : NavCache) : Bool :=
  decide (maxFiles < cache.order.length) ||
    decide ((maxBytes : Int) < cache.bytes)

/-- One turn of the loop: the entry of a shifted file goes, if there is one. -/
def withoutEntry (cache : NavCache) (evict : Text) : NavCache :=
  match cache.entries.lookup evict with
  | none => cache
  | some oldEntry =>
    { cache with
      bytes := cache.bytes - uncountedBytes oldEntry
      entries := cache.entries.remove evict }

/--
The eviction loop on the files in their order; `none` when it never ends.
Shifting an empty order gives the undefined value, which reads as the empty
file name: one such turn may remove that entry, and no later turn does
anything.
-/
def evictFrom (bytes : Int) (entries : Entries Text NavEntry) :
    List Text → Option NavCache
  | [] =>
    let cache : NavCache := { bytes, entries, order := [] }
    if cache.isFull then
      let later := cache.withoutEntry []
      if later.isFull then none else some later
    else some cache
  | evict :: rest =>
    let cache : NavCache := { bytes, entries, order := evict :: rest }
    if cache.isFull then
      let later := cache.withoutEntry evict
      evictFrom later.bytes later.entries rest
    else some cache

def evicted (cache : NavCache) : Option NavCache :=
  evictFrom cache.bytes cache.entries cache.order

/-- The entry of a file is taken off before it is replaced. -/
def uncounted (cache : NavCache) (file : Text) : NavCache :=
  match cache.entries.lookup file with
  | none => cache
  | some oldEntry =>
    { cache with
      bytes := cache.bytes - uncountedBytes oldEntry
      order := cache.order.filter fun other => decide (other ≠ file) }

/-- The new entry of a file, counted and last in the order. -/
def counted
    (cache : NavCache) (file : Text) (entry : NavEntry) : NavCache where
  bytes := cache.bytes + entry.body.byteLength
  entries := cache.entries.store file entry
  order := cache.order ++ [file]

end NavCache

structure NavCall where
  file : Option Text
  fingerprint : Option Text
  body : Option HeldString

def NavCall.stored? (call : NavCall) : Option (Text × NavEntry) :=
  match call.file, call.fingerprint, call.body with
  | some file, some fingerprint, some body =>
    some (file, { fingerprint, body })
  | _, _, _ => none

/--
`_cache_literal_nav_fragment` on a cache that may be absent: the answer and the
cache, or `none` when the call does not return.
-/
def cacheLiteralNavFragment (held : Option NavCache) (call : NavCall) :
    Option (Bool × Option NavCache) :=
  match call.stored? with
  | none => some (false, held)
  | some (file, entry) =>
    let cache := held.getD NavCache.created
    if cache.bytes < 0 then some (false, some cache)
    else
      match ((cache.uncounted file).counted file entry).evicted with
      | none => none
      | some later => some (true, some later)

def afterNavCalls (calls : List NavCall) : Option (Option NavCache) :=
  calls.foldlM
    (fun held call =>
      (cacheLiteralNavFragment held call).map Prod.snd)
    none

/-!
# The accounts of the nav fragment cache

The cache is a bounded store of its newest entries as long as its counter is
exact.  Removing a body takes `$old_entry->{body} || ''` off the counter, so a
removed body `0` leaves its byte behind: the counter is exact for ever when
and only when no such body is removed.
-/

def navLimits : AgeLimits NavEntry where
  count := NavCache.maxFiles
  total := NavCache.maxBytes
  size entry := entry.body.byteLength

def storedItems (calls : List NavCall) : List (Text × NavEntry) :=
  calls.filterMap NavCall.stored?

/-- The entries that a bounded store holds after a list of calls. -/
def heldItems (calls : List NavCall) : Entries Text NavEntry :=
  navLimits.renewed (storedItems calls)

structure HasExactAccounts
    (calls : List NavCall) (cache : NavCache) : Prop where
  order_nodup : cache.order.Nodup
  order_perm : cache.order.Perm (cache.entries.map Prod.fst)
  bytes_eq : cache.bytes = navLimits.totalSize cache.entries
  files_le : cache.entries.length ≤ 128
  bytes_le : navLimits.totalSize cache.entries ≤ 4194304
  stored :
    ∀ item, calls.getLast?.bind NavCall.stored? = some item →
      cache.entries.lookup item.1 = some item.2
  oldest_evicted :
    ∃ kept, kept <:+ AgeLimits.lastStored (storedItems calls) ∧
      cache.order = kept.map Prod.fst ∧ cache.entries.Perm kept

/-- The last of the calls returns, and leaves exact accounts. -/
def AccountsExact (calls : List NavCall) : Prop :=
  ∃ held, afterNavCalls calls = some held ∧
    HasExactAccounts calls (held.getD NavCache.created)

/-- Whether a call has a body that load_nav_fragment would cache. -/
def NavCall.IsSmall (call : NavCall) : Prop :=
  ∀ body, call.body = some body → body.byteLength ≤ 262144

/-- A call replaces or evicts a body `0`. -/
def RemovesZero (before : List NavCall) (call : NavCall) : Prop :=
  ∃ item entry, call.stored? = some item ∧
    navLimits.Loses (heldItems before) item entry ∧
    entry.2.body.isZero = true

/-- What a removed body leaves on the counter. -/
def leftBehind (entry : NavEntry) : Nat :=
  if entry.body.isZero then 1 else 0

/-- A cache that holds some entries, with a counter that is too high. -/
structure Mirrors
    (drift : Nat) (cache : NavCache)
    (items : Entries Text NavEntry) : Prop where
  distinct : (items.map Prod.fst).Nodup
  order : cache.order = items.map Prod.fst
  entries : cache.entries.Perm items
  bytes : cache.bytes = navLimits.totalSize items + drift

theorem mirrors_created : Mirrors 0 NavCache.created [] where
  distinct := List.nodup_nil
  order := rfl
  entries := List.Perm.refl []
  bytes := rfl

theorem size_eq (entry : NavEntry) :
    navLimits.size entry =
      NavCache.uncountedBytes entry + leftBehind entry :=
  entry.body.byteLength_eq_orEmpty

variable {item : Text × NavEntry}

namespace Mirrors

variable
  {drift : Nat} {cache : NavCache} {items : Entries Text NavEntry}

section

variable (mirrors : Mirrors drift cache items)

include mirrors

theorem nodup_keys :
    (cache.entries.map Prod.fst).Nodup :=
  (mirrors.entries.map Prod.fst).nodup_iff.mpr mirrors.distinct

theorem lookup_of_mem
    (member : item ∈ items) :
    cache.entries.lookup item.1 = some item.2 :=
  Entries.lookup_of_mem mirrors.nodup_keys
    (mirrors.entries.mem_iff.mpr member)

theorem mem_of_lookup
    {file : Text} {entry : NavEntry}
    (found : cache.entries.lookup file = some entry) :
    (file, entry) ∈ items :=
  mirrors.entries.mem_iff.mp (Entries.mem_of_lookup found)

omit mirrors in
theorem isFull_eq (mirrors : Mirrors 0 cache items) :
    cache.isFull = navLimits.isOver items := by
  have bytes : cache.bytes = (navLimits.totalSize items : Int) := by
    simpa using mirrors.bytes
  unfold NavCache.isFull AgeLimits.isOver
  rw [mirrors.order, bytes, List.length_map, decide_eq_decide.mpr
    Int.ofNat_lt]
  rfl

omit mirrors in
theorem withoutOldest {rest : Entries Text NavEntry}
    (mirrors : Mirrors drift cache (item :: rest)) :
    Mirrors (drift + leftBehind item.2)
      { cache.withoutEntry item.1 with order := rest.map Prod.fst }
      rest := by
  have found := mirrors.lookup_of_mem List.mem_cons_self
  unfold NavCache.withoutEntry
  rw [found]
  refine ⟨(List.nodup_cons.mp mirrors.distinct).2, rfl, ?_, ?_⟩
  · have whole := mirrors.entries.symm.trans
      (Entries.perm_cons_remove mirrors.nodup_keys
        (Entries.mem_of_lookup found))
    exact whole.cons_inv.symm
  · have bytes := mirrors.bytes
    have size := size_eq item.2
    rw [AgeLimits.totalSize_cons] at bytes
    simp only
    omega

omit mirrors in
theorem entries_uncounted (cache : NavCache) (file : Text) :
    (cache.uncounted file).entries = cache.entries := by
  unfold NavCache.uncounted
  split
  · rfl
  · rfl

/-- Taking a file off leaves the order of the other files. -/
theorem order_uncounted (file : Text) :
    (cache.uncounted file).order =
      (Entries.remove items file).map Prod.fst := by
  have filtered :
      cache.order.filter (fun other => decide (other ≠ file)) =
        (Entries.remove items file).map Prod.fst := by
    rw [mirrors.order, List.filter_map]
    rfl
  unfold NavCache.uncounted
  split
  · next absent =>
      rw [← filtered, List.filter_eq_self.mpr]
      intro other member
      refine decide_eq_true ?_
      rintro rfl
      rw [mirrors.order, ← (mirrors.entries.map Prod.fst).mem_iff]
        at member
      exact (Entries.lookup_eq_none_iff _ _).mp absent member
  · exact filtered

/-- What taking a file off leaves on the counter. -/
theorem bytes_uncounted (file : Text) :
    ∃ left : Nat,
      (cache.uncounted file).bytes =
        navLimits.totalSize (Entries.remove items file) +
          (drift + left : Nat) ∧
      (left ≠ 0 ↔ ∃ entry ∈ items, entry.1 = file ∧
        entry.2.body.isZero = true) := by
  have bytes := mirrors.bytes
  unfold NavCache.uncounted
  split
  · next absent =>
      have notKey : file ∉ items.map Prod.fst := by
        rw [← (mirrors.entries.map Prod.fst).mem_iff]
        exact (Entries.lookup_eq_none_iff _ _).mp absent
      refine ⟨0, ?_, ?_⟩
      · rw [Entries.remove_of_not_mem notKey, Nat.add_zero]
        exact bytes
      · simp only [ne_eq, not_true_eq_false, false_iff, not_exists, not_and]
        intro entry member same
        exact absurd (List.mem_map.mpr ⟨entry, member, same⟩) notKey
  · next oldEntry found =>
      have member := mirrors.mem_of_lookup found
      have whole := navLimits.totalSize_perm
        (Entries.perm_cons_remove mirrors.distinct member)
      have size := size_eq oldEntry
      rw [AgeLimits.totalSize_cons] at whole
      refine ⟨leftBehind oldEntry, ?_, ?_⟩
      · simp only at whole ⊢
        omega
      · unfold leftBehind
        constructor
        · intro left
          exact ⟨_, member, rfl, by simpa using left⟩
        · rintro ⟨entry, isIn, rfl, zero⟩
          have same := mirrors.lookup_of_mem isIn
          rw [found] at same
          rw [Option.some.inj same, if_pos zero]
          exact Nat.one_ne_zero

/-- A new entry takes the place of the old one of its file. -/
theorem counted (item : Text × NavEntry) :
    ∃ left,
      Mirrors (drift + left)
        ((cache.uncounted item.1).counted item.1 item.2)
        (AgeLimits.atNewEnd items item) ∧
      (left ≠ 0 ↔ ∃ entry ∈ items, entry.1 = item.1 ∧
        entry.2.body.isZero = true) := by
  obtain ⟨left, bytes, removed⟩ := mirrors.bytes_uncounted item.1
  refine ⟨left, ⟨?_, ?_, ?_, ?_⟩, removed⟩
  · exact AgeLimits.nodup_atNewEnd item mirrors.distinct
  · unfold NavCache.counted AgeLimits.atNewEnd
    rw [mirrors.order_uncounted, List.map_append]
    rfl
  · unfold NavCache.counted AgeLimits.atNewEnd
    rw [entries_uncounted]
    refine (Entries.store_perm mirrors.nodup_keys _ _).trans ?_
    exact (mirrors.entries.filter _).append_right _
  · unfold NavCache.counted AgeLimits.atNewEnd
    rw [AgeLimits.totalSize_append, AgeLimits.totalSize_cons,
      AgeLimits.totalSize_nil]
    have size : navLimits.size item.2 = item.2.body.byteLength := rfl
    simp only
    omega

omit mirrors in
theorem evicted_nil (mirrors : Mirrors drift cache []) :
    cache.evicted = if cache.isFull then none else some cache := by
  have entries : cache.entries = [] := mirrors.entries.eq_nil
  have order : cache.order = [] := mirrors.order
  obtain ⟨bytes, _, _⟩ := cache
  subst entries order
  -- Shifting the empty order finds no entry, so the second test is the first.
  change
    (if NavCache.isFull { bytes, entries := [], order := [] } then
      if NavCache.isFull { bytes, entries := [], order := [] } then none
      else _
    else _) = _
  split
  · rfl
  · rfl

omit mirrors in
theorem evicted_cons {rest : Entries Text NavEntry}
    (mirrors : Mirrors drift cache (item :: rest)) :
    cache.evicted =
      if cache.isFull then
        ({ cache.withoutEntry item.1 with
          order := rest.map Prod.fst } : NavCache).evicted
      else some cache := by
  have order : cache.order = item.1 :: rest.map Prod.fst := mirrors.order
  obtain ⟨bytes, entries, _⟩ := cache
  subst order
  rfl

theorem drift_le_of_evicted
    {later : NavCache} (returned : cache.evicted = some later) :
    ∃ drift' kept, drift ≤ drift' ∧ Mirrors drift' later kept := by
  induction items generalizing drift cache with
  | nil =>
    rw [mirrors.evicted_nil] at returned
    split at returned
    · contradiction
    · obtain rfl := Option.some.inj returned
      exact ⟨drift, [], Nat.le_refl _, mirrors⟩
  | cons item rest ih =>
    rw [mirrors.evicted_cons] at returned
    split at returned
    · obtain ⟨drift', kept, more, held⟩ :=
        ih mirrors.withoutOldest returned
      exact ⟨drift', kept, by omega, held⟩
    · obtain rfl := Option.some.inj returned
      exact ⟨drift, item :: rest, Nat.le_refl _, mirrors⟩

end

theorem evicted_eq (mirrors : Mirrors 0 cache items)
    (counted :
      ∀ entry ∈ navLimits.dropped items, entry.2.body.isZero = false) :
    ∃ later, cache.evicted = some later ∧
      Mirrors 0 later (navLimits.dropOldest items) := by
  induction items generalizing cache with
  | nil =>
    refine ⟨cache, ?_, mirrors⟩
    rw [mirrors.evicted_nil, mirrors.isFull_eq, AgeLimits.isOver_nil]
    rfl
  | cons item rest ih =>
    rw [mirrors.evicted_cons, mirrors.isFull_eq]
    unfold AgeLimits.dropped at counted
    unfold AgeLimits.dropOldest
    split at counted
    · next tooMuch =>
        rw [if_pos tooMuch, if_pos tooMuch]
        have exact' : leftBehind item.2 = 0 := by
          rw [leftBehind, counted item List.mem_cons_self]
          rfl
        have next := mirrors.withoutOldest
        rw [exact'] at next
        exact ih next fun entry member =>
          counted entry (List.mem_cons_of_mem _ member)
    · next within =>
        rw [if_neg within, if_neg within]
        exact ⟨cache, rfl, mirrors⟩

theorem drift_pos_of_evicted (mirrors : Mirrors 0 cache items)
    {entry : Text × NavEntry} (dropped : entry ∈ navLimits.dropped items)
    (zero : entry.2.body.isZero = true)
    {later : NavCache} (returned : cache.evicted = some later) :
    ∃ drift' kept, 0 < drift' ∧ Mirrors drift' later kept := by
  induction items generalizing cache with
  | nil => contradiction
  | cons item rest ih =>
    rw [mirrors.evicted_cons, mirrors.isFull_eq] at returned
    unfold AgeLimits.dropped at dropped
    split at dropped
    · next tooMuch =>
        rw [if_pos tooMuch] at returned
        have next := mirrors.withoutOldest
        by_cases first : item.2.body.isZero = true
        · have left : leftBehind item.2 = 1 := if_pos first
          obtain ⟨drift', kept, more, held⟩ :=
            next.drift_le_of_evicted returned
          exact ⟨drift', kept, by omega, held⟩
        · have left : leftBehind item.2 = 0 := if_neg first
          rw [left] at next
          rcases List.mem_cons.mp dropped with rfl | inRest
          · exact absurd zero first
          · exact ih next inRest returned
    · contradiction

end Mirrors

variable {call : NavCall}

theorem cacheLiteralNavFragment_of_refused (held : Option NavCache)
    (refused : call.stored? = none) :
    cacheLiteralNavFragment held call = some (false, held) := by
  unfold cacheLiteralNavFragment
  rw [refused]

variable {held : Option NavCache}

theorem cacheLiteralNavFragment_of_stored (stored : call.stored? = some item)
    {drift : Nat} {items : Entries Text NavEntry}
    (mirrors : Mirrors drift (held.getD NavCache.created) items) :
    cacheLiteralNavFragment held call =
      ((((held.getD NavCache.created).uncounted item.1).counted
          item.1 item.2).evicted).map fun later => (true, some later) := by
  have bytes := mirrors.bytes
  unfold cacheLiteralNavFragment
  rw [stored]
  simp only
  rw [if_neg (by omega)]
  cases (((held.getD NavCache.created).uncounted item.1).counted
    item.1 item.2).evicted with
  | none => rfl
  | some later => rfl

theorem storedItems_append (before : List NavCall) (call : NavCall) :
    storedItems (before ++ [call]) =
      storedItems before ++ call.stored?.toList := by
  unfold storedItems
  rw [List.filterMap_append]
  cases stored : call.stored? with
  | none => simp [stored]
  | some item => simp [stored]

theorem heldItems_of_refused (before : List NavCall)
    (refused : call.stored? = none) :
    heldItems (before ++ [call]) = heldItems before := by
  unfold heldItems
  rw [storedItems_append, refused, Option.toList_none, List.append_nil]

theorem heldItems_of_stored (before : List NavCall)
    (stored : call.stored? = some item) :
    heldItems (before ++ [call]) =
      navLimits.renew (heldItems before) item := by
  unfold heldItems AgeLimits.renewed
  rw [storedItems_append, stored, Option.toList_some, List.foldl_append]
  rfl

theorem isOver_singleton (small : call.IsSmall)
    (stored : call.stored? = some item) :
    navLimits.isOver [item] = false := by
  unfold NavCall.stored? at stored
  split at stored
  · next isBody =>
      obtain rfl := Option.some.inj stored
      have length := small _ isBody
      simp [AgeLimits.isOver, navLimits, NavCache.maxFiles,
        NavCache.maxBytes]
      omega
  · contradiction

variable {before : List NavCall}

/-- One more call that removes no body `0`. -/
theorem Mirrors.next (small : call.IsSmall)
    (mirrors : Mirrors 0 (held.getD NavCache.created) (heldItems before))
    (counts : ¬ RemovesZero before call) :
    ∃ later, (cacheLiteralNavFragment held call).map Prod.snd = some later ∧
      Mirrors 0 (later.getD NavCache.created)
        (heldItems (before ++ [call])) := by
  cases stored : call.stored? with
  | none =>
    rw [cacheLiteralNavFragment_of_refused held stored,
      heldItems_of_refused before stored]
    exact ⟨held, rfl, mirrors⟩
  | some item =>
    have alone := isOver_singleton small stored
    have kept :
        ∀ entry, navLimits.Loses (heldItems before) item entry →
          entry.2.body.isZero = false := fun entry lost =>
      Bool.eq_false_iff.mpr fun zero =>
        counts ⟨item, entry, stored, lost, zero⟩
    obtain ⟨left, counted, removed⟩ := mirrors.counted item
    have nothingLeft : left = 0 := by
      by_contra some
      obtain ⟨entry, member, same, zero⟩ := removed.mp some
      rw [kept entry ((AgeLimits.loses_iff _ alone).mpr
        (.inl ⟨member, same⟩))] at zero
      contradiction
    rw [nothingLeft] at counted
    obtain ⟨later, returned, exact'⟩ :=
      counted.evicted_eq fun entry dropped =>
        kept entry ((AgeLimits.loses_iff _ alone).mpr (.inr dropped))
    rw [cacheLiteralNavFragment_of_stored stored mirrors, returned,
      heldItems_of_stored before stored]
    exact ⟨some later, rfl, exact'⟩

theorem Mirrors.next_of_removesZero (small : call.IsSmall)
    (mirrors : Mirrors 0 (held.getD NavCache.created) (heldItems before))
    (removes : RemovesZero before call) {later : Option NavCache}
    (returned :
      (cacheLiteralNavFragment held call).map Prod.snd = some later) :
    ∃ drift items, 0 < drift ∧
      Mirrors drift (later.getD NavCache.created) items := by
  obtain ⟨item, entry, stored, lost, zero⟩ := removes
  obtain ⟨left, counted, removed⟩ := mirrors.counted item
  rw [cacheLiteralNavFragment_of_stored stored mirrors,
    Option.map_map, Option.map_eq_some_iff] at returned
  obtain ⟨cache, evicted, rfl⟩ := returned
  by_cases exact' : left = 0
  · rw [exact'] at counted
    rcases (AgeLimits.loses_iff _ (isOver_singleton small stored)).mp lost
      with ⟨member, same⟩ | dropped
    · exact absurd exact' (removed.mpr ⟨entry, member, same, zero⟩)
    · exact counted.drift_pos_of_evicted dropped zero evicted
  · obtain ⟨drift, items, more, later⟩ := counted.drift_le_of_evicted evicted
    exact ⟨drift, items, by omega, later⟩

theorem afterNavCalls_append (before : List NavCall) (call : NavCall) :
    afterNavCalls (before ++ [call]) =
      (afterNavCalls before).bind fun held =>
        (cacheLiteralNavFragment held call).map Prod.snd := by
  unfold afterNavCalls
  rw [List.foldlM_append]
  simp [List.foldlM_cons, List.foldlM_nil, Option.bind_eq_bind]

variable {calls : List NavCall}

/-- The calls remove no body `0`, so the counter is exact. -/
theorem mirrors_afterNavCalls (small : ∀ call ∈ calls, call.IsSmall)
    (counts :
      ∀ before call, before ++ [call] <+: calls →
        ¬ RemovesZero before call) :
    ∃ held, afterNavCalls calls = some held ∧
      Mirrors 0 (held.getD NavCache.created) (heldItems calls) := by
  induction calls using List.reverseRecOn with
  | nil => exact ⟨none, rfl, mirrors_created⟩
  | append_singleton before call ih =>
    obtain ⟨held, returned, mirrors⟩ :=
      ih
        (fun other member =>
          small other (List.mem_append_left _ member))
        (fun front other within =>
          counts front other
            (within.trans (List.prefix_append before [call])))
    obtain ⟨later, result, next⟩ :=
      Mirrors.next
        (small call (List.mem_append_right _ List.mem_cons_self))
        mirrors (counts before call (List.prefix_refl _))
    refine ⟨later, ?_, next⟩
    rw [afterNavCalls_append, returned]
    exact result

theorem heldItems_bounds (calls : List NavCall) :
    (heldItems calls).length ≤ 128 ∧
      navLimits.totalSize (heldItems calls) ≤ 4194304 := by
  have within := navLimits.isOver_renewed (storedItems calls)
  simp only [AgeLimits.isOver, Bool.or_eq_false_iff, decide_eq_false_iff_not,
    Nat.not_lt] at within
  exact within

theorem mem_heldItems (small : ∀ call ∈ calls, call.IsSmall)
    (last : calls.getLast?.bind NavCall.stored? = some item) :
    item ∈ heldItems calls := by
  obtain ⟨call, isLast, stored⟩ := Option.bind_eq_some_iff.mp last
  obtain ⟨before, rfl⟩ := List.getLast?_eq_some_iff.mp isLast
  rw [heldItems_of_stored before stored]
  exact navLimits.mem_renew _
    (isOver_singleton
      (small call (List.mem_append_right _ List.mem_cons_self)) stored)

theorem hasExactAccounts_of_mirrors (small : ∀ call ∈ calls, call.IsSmall)
    {cache : NavCache} (mirrors : Mirrors 0 cache (heldItems calls)) :
    HasExactAccounts calls cache where
  order_nodup := mirrors.order ▸ mirrors.distinct
  order_perm := by
    rw [mirrors.order]
    exact (mirrors.entries.map Prod.fst).symm
  bytes_eq := by
    rw [navLimits.totalSize_perm mirrors.entries]
    simpa using mirrors.bytes
  files_le := mirrors.entries.length_eq ▸ (heldItems_bounds calls).1
  bytes_le := by
    rw [navLimits.totalSize_perm mirrors.entries]
    exact (heldItems_bounds calls).2
  stored _ last := mirrors.lookup_of_mem (mem_heldItems small last)
  oldest_evicted :=
    ⟨heldItems calls, navLimits.renewed_suffix_lastStored _,
      mirrors.order, mirrors.entries⟩

theorem not_accountsExact_of_removesZero
    (small : ∀ other ∈ before ++ [call], other.IsSmall)
    (counts :
      ∀ front other, front ++ [other] <+: before →
        ¬ RemovesZero front other)
    (removes : RemovesZero before call) :
    ¬ AccountsExact (before ++ [call]) := by
  rintro ⟨later, returned, accounts⟩
  obtain ⟨held, result, mirrors⟩ :=
    mirrors_afterNavCalls
      (fun other member => small other (List.mem_append_left _ member))
      counts
  rw [afterNavCalls_append, result] at returned
  obtain ⟨drift, items, positive, drifted⟩ :=
    Mirrors.next_of_removesZero
      (small call (List.mem_append_right _ List.mem_cons_self))
      mirrors removes returned
  have bytes := accounts.bytes_eq
  rw [navLimits.totalSize_perm drifted.entries, drifted.bytes] at bytes
  omega

/--
The cache keeps exact accounts after every call of a list if and only if no
call of it replaces or evicts a body `0`.
-/
theorem exactAccounts_iff (calls : List NavCall)
    (small : ∀ call ∈ calls, call.IsSmall) :
    (∀ before, before <+: calls → AccountsExact before) ↔
      ∀ before call, before ++ [call] <+: calls →
        ¬ RemovesZero before call := by
  constructor
  · intro exact'
    induction calls using List.reverseRecOn with
    | nil =>
      intro before call within
      simp at within
    | append_singleton calls last ih =>
      have earlier := ih
        (fun other member =>
          small other (List.mem_append_left _ member))
        (fun before within =>
          exact' before (within.trans (List.prefix_append calls [last])))
      intro before call within
      rcases List.prefix_concat_iff.mp within with whole | inside
      · obtain ⟨rfl, rfl⟩ := List.append_singleton_inj.mp whole
        exact fun removes =>
          not_accountsExact_of_removesZero small earlier removes
            (exact' _ (List.prefix_refl _))
      · exact earlier before call inside
  · intro counts before within
    have smaller : ∀ call ∈ before, call.IsSmall := fun call member =>
      small call (within.subset member)
    obtain ⟨held, returned, mirrors⟩ :=
      mirrors_afterNavCalls smaller fun front call inside =>
        counts front call (inside.trans within)
    exact ⟨held, returned, hasExactAccounts_of_mirrors smaller mirrors⟩

/-- A call that stores a body under the file `f`. -/
def callWithBody (body : Bytes) : NavCall where
  file := some ['f']
  fingerprint := some []
  body := some { bytes := body, utf8 := false }

theorem isSmall_callWithBody {body : Bytes} (short : body.length ≤ 262144) :
    (callWithBody body).IsSmall := by
  intro held isBody
  obtain rfl := Option.some.inj isBody
  exact short

/-- A list of calls on one file that removes no body `0`. -/
theorem exactAccounts_iff_oneFile :
    (∀ call ∈ [callWithBody [0x78], callWithBody [0x79]], call.IsSmall) ∧
      ((∀ before, before <+: [callWithBody [0x78], callWithBody [0x79]] →
          AccountsExact before) ↔
        ∀ before call,
          before ++ [call] <+: [callWithBody [0x78], callWithBody [0x79]] →
            ¬ RemovesZero before call) := by
  have small :
      ∀ call ∈ [callWithBody [0x78], callWithBody [0x79]],
        call.IsSmall := by
    intro call member
    rcases List.mem_pair.mp member with rfl | rfl
    · exact isSmall_callWithBody (by decide)
    · exact isSmall_callWithBody (by decide)
  exact ⟨small, exactAccounts_iff _ small⟩

/-- Replacing a body `0` leaves its byte on the counter. -/
theorem replaced_zero_stays_counted :
    ¬ ∀ calls : List NavCall, (∀ call ∈ calls, call.IsSmall) →
      ∀ before, before <+: calls → AccountsExact before := by
  intro always
  have small :
      ∀ call ∈ [callWithBody [0x30], callWithBody [0x78]],
        call.IsSmall := by
    intro call member
    rcases List.mem_pair.mp member with rfl | rfl
    · exact isSmall_callWithBody (by decide)
    · exact isSmall_callWithBody (by decide)
  obtain ⟨held, returned, accounts⟩ :=
    always _ small _ (List.prefix_refl _)
  have result :
      afterNavCalls [callWithBody [0x30], callWithBody [0x78]] =
        some (some {
          bytes := 2
          entries := [(['f'], {
            fingerprint := []
            body := { bytes := [0x78], utf8 := false } })]
          order := [['f']] }) := by
    decide +kernel
  rw [result] at returned
  obtain rfl := Option.some.inj returned
  exact absurd accounts.bytes_eq (by decide)

end DeveloperDashboard.Page
