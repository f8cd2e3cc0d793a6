import Mathlib.Data.List.MinMax
import DeveloperDashboard.Library.Joined
import DeveloperDashboard.Library.NestedEntries
import DeveloperDashboard.Library.StampedStore
import DeveloperDashboard.Perl.Encoding
import DeveloperDashboard.Perl.TimeLocal

namespace DeveloperDashboard.Page.TemplateCache

open Perl Library Library.Nested

/-!
# The cache of compiled templates

`_template_document_for_source` of PageRuntime.pm.  The parser and the
compiler of the Template Toolkit are parameters, functions of the text and the
ordered include roots; a document made of compiled code references is built
without evaluating them again.  Sorted by their stamps, the entries of the
cache are those of a bounded store from which the oldest uses are dropped.
-/

/-- What the compiler makes of a template; the block may be no code. -/
structure Parts (Code : Type) where
  block : Option Code
  blocks : Entries Text Code
  templateVariables : Entries Text Text

/-- `$compiled` -/
structure Compiled (Code : Type) extends Parts Code where
  metadata : Entries Text Text

/-- A `Template::Document`. -/
structure Document (Code : Type) where
  block : Code
  blocks : Entries Text Code
  templateVariables : Entries Text Text
  metadata : Entries Text Text

/-- The Template Toolkit, as far as the function calls it. -/
structure Engine (Tree Code : Type) where
  parse : List Text → Text → Option Tree
  metadata : Tree → Entries Text Text
  compile : Tree → Option (Parts Code)

/-- What an entry holds besides its stamp. -/
structure Cached (Code : Type) where
  compiled : Compiled Code
  bytes : Nat

/-- `$self->{_template_parsed_tree_cache}` -/
structure Cache (Code : Type) where
  sources : Entries Text (Entries Text (Stamped (Cached Code)))
  entries : Int
  bytes : Int
  clock : Nat

/-- The arguments, how Perl holds them, the time and the request scope. -/
structure Call where
  roots : List Text
  rootsUtf8 : Bool
  source : Text
  sourceUtf8 : Bool
  time : Text
  inScope : Bool

/-- `bytes::length` of a text that is held with or without the flag. -/
def bytesLength (utf8 : Bool) (text : Text) : Nat :=
  if utf8 then (utf8Bytes text).length else text.length

/-- `length($_) . ':' . $_` -/
def rootPart (root : Text) : Text :=
  (Nat.repr root.length).toList ++ ':' :: root

/-- `$root_key` -/
def rootKey (roots : List Text) : Text :=
  ['\x00'].intercalate (roots.map rootPart)

namespace Call

def key (call : Call) : Text × Text :=
  (rootKey call.roots, call.source)

/-- `$source_bytes` -/
def sourceBytes (call : Call) : Nat :=
  bytesLength call.sourceUtf8 call.source

/-- `$cache_entry_bytes` -/
def cacheEntryBytes (call : Call) : Nat :=
  call.sourceBytes + bytesLength call.rootsUtf8 (rootKey call.roots)

def tooLarge (call : Call) : Bool :=
  decide (262144 < call.sourceBytes) || decide (262144 < call.cacheEntryBytes)

def cached {Code : Type} (call : Call) (compiled : Compiled Code) :
    Cached Code where
  compiled := compiled
  bytes := call.cacheEntryBytes

end Call

def created {Code : Type} : Cache Code where
  sources := []
  entries := 0
  bytes := 0
  clock := 0

section Calls

variable {Tree Code : Type}

def compiledFor (engine : Engine Tree Code) (roots : List Text)
    (source : Text) : Option (Compiled Code) := do
  let tree ← engine.parse roots source
  let parts ← engine.compile tree
  return { parts with metadata := engine.metadata tree }

/-- The document of compiled parts, with the metadata of this moment. -/
def documentAt (time : Text) (compiled : Compiled Code) :
    Option (Document Code) :=
  compiled.block.map fun block =>
    { block := block
      blocks := compiled.blocks
      templateVariables := compiled.templateVariables
      metadata :=
        compiled.metadata.foldl
          (fun fields field => fields.store field.1 field.2)
          [("name".toList, "input text".toList), ("modtime".toList, time)] }

/-- The condition under which the loop stops. -/
def Cache.hasRoom (cache : Cache Code) (size : Nat) : Bool :=
  decide (cache.entries < 16) && decide (cache.bytes + size ≤ 1048576)

/-- One turn of the loop: find the oldest entry and delete it. -/
def Cache.withoutOldest (cache : Cache Code) : Option (Cache Code) :=
  ((flattened cache.sources).argmin fun entry => entry.2.used).map
    fun oldest =>
      { cache with
        sources := removeIn cache.sources oldest.1
        entries := cache.entries - 1
        bytes := cache.bytes - oldest.2.value.bytes }

/-- The loop, for some turns, and whether the entry is cacheable. -/
def makeRoom (size : Nat) :
    Nat → Cache Code → Option (Cache Code × Bool)
  | 0, _ => none
  | turns + 1, cache =>
    if cache.hasRoom size then some (cache, true)
    else
      match cache.withoutOldest with
      | none => some (cache, false)
      | some later => makeRoom size turns later

/-- Use the entry of a key, with the next reading of the clock. -/
def Cache.use (cache : Cache Code) (key : Text × Text)
    (value : Cached Code) : Cache Code :=
  { cache with
    sources :=
      storeIn cache.sources key { value := value, used := cache.clock + 1 }
    clock := cache.clock + 1 }

/-- Store a new entry, and count it. -/
def Cache.add (cache : Cache Code) (key : Text × Text)
    (value : Cached Code) : Cache Code :=
  { cache.use key value with
    entries := cache.entries + 1
    bytes := cache.bytes + value.bytes }

/-- The call on a miss, behind the tests of the size. -/
def compileAndCache (engine : Engine Tree Code) (cache : Cache Code)
    (call : Call) : Option (Cache Code × Option (Document Code)) :=
  match compiledFor engine call.roots call.source with
  | none => some (cache, none)
  | some compiled =>
    (makeRoom call.cacheEntryBytes
        ((flattened cache.sources).length + 1) cache).map fun room =>
      (if room.2 then room.1.add call.key (call.cached compiled)
        else room.1,
        documentAt call.time compiled)

/--
`_template_document_for_source( $tt, $roots, $source )`, with the cache it
leaves; `none` outside stands for a loop that takes more turns than there are
entries.
-/
def templateDocumentForSource (engine : Engine Tree Code)
    (cache : Cache Code) (call : Call) :
    Option (Cache Code × Option (Document Code)) :=
  if !call.inScope then some (cache, none)
  else
    match lookupIn cache.sources call.key with
    | some entry =>
      some (cache.use call.key entry.value,
        documentAt call.time entry.value.compiled)
    | none =>
      if call.tooLarge then some (cache, none)
      else compileAndCache engine cache call

def afterCalls (engine : Engine Tree Code) (calls : List Call) :
    Option (Cache Code) :=
  calls.foldl
    (fun cache? call => do
      let cache ← cache?
      let result ← templateDocumentForSource engine cache call
      return result.1)
    (some created)

def limits : AgeLimits (Cached Code) where
  count := 16
  total := 1048576
  size := Cached.bytes

def freshDocument (engine : Engine Tree Code) (call : Call) :
    Option (Document Code) :=
  (compiledFor engine call.roots call.source).bind (documentAt call.time)

/-- The entries after a call, from the least to the most recently used. -/
def itemsNext (engine : Engine Tree Code)
    (items : Entries (Text × Text) (Cached Code)) (call : Call) :
    Entries (Text × Text) (Cached Code) :=
  if !call.inScope then items
  else
    match items.lookup call.key with
    | some cached => AgeLimits.atNewEnd items (call.key, cached)
    | none =>
      if call.tooLarge then items
      else
        match compiledFor engine call.roots call.source with
        | none => items
        | some compiled =>
          limits.renew items (call.key, call.cached compiled)

def itemsAfter (engine : Engine Tree Code) (calls : List Call) :
    Entries (Text × Text) (Cached Code) :=
  calls.foldl (itemsNext engine) []

def Cache.view (cache : Cache Code) :
    StampedStore (Text × Text) (Cached Code) where
  entries := flattened cache.sources
  clock := cache.clock

/-- The cache holds these items, by their last use, and counts them. -/
structure Mirrors (cache : Cache Code)
    (items : Entries (Text × Text) (Cached Code)) : Prop where
  distinct : (cache.sources.map Prod.fst).Nodup
  held : cache.view.Mirrors items
  entries : cache.entries = items.length
  bytes : cache.bytes = limits.totalSize items

/-- Every item is compiled from the text and the roots of its keys. -/
def Faithful (engine : Engine Tree Code)
    (items : Entries (Text × Text) (Cached Code)) : Prop :=
  ∀ roots source cached,
    ((rootKey roots, source), cached) ∈ items →
      compiledFor engine roots source = some cached.compiled

end Calls

theorem eq_of_rootPart_append {root other rest last : Text}
    (same : rootPart root ++ rest = rootPart other ++ last) :
    root = other ∧ rest = last := by
  have noColon : ∀ number : Nat, ':' ∉ (Nat.repr number).toList := by
    intro number member
    exact absurd (isDigit_of_mem_repr member).1 (by decide)
  unfold rootPart at same
  rw [List.append_assoc, List.append_assoc] at same
  obtain ⟨digits, behind⟩ :=
    Joined.eq_of_append_cons (noColon _) (noColon _) same
  have lengths : root.length = other.length := by
    rw [← stringNumber_repr root.length, digits, stringNumber_repr]
  exact List.append_inj behind lengths

theorem rootKey_injective {roots others : List Text}
    (same : rootKey roots = rootKey others) : roots = others := by
  have keyCons : ∀ (root : Text) (rest : List Text),
      rootKey (root :: rest) =
        rootPart root ++
          if rest = [] then [] else '\x00' :: rootKey rest := by
    intro root rest
    cases rest with
    | nil => simp [rootKey]
    | cons next later =>
      exact Joined.intercalate_cons_cons _ _ _
  have notEmpty : ∀ (root : Text) (rest : List Text),
      rootKey (root :: rest) ≠ [] := by
    intro root rest
    rw [keyCons, rootPart]
    simp
  induction roots generalizing others with
  | nil =>
    cases others with
    | nil => rfl
    | cons other rest => exact absurd same.symm (notEmpty other rest)
  | cons root rest ih =>
    cases others with
    | nil => exact absurd same (notEmpty root rest)
    | cons other last =>
      rw [keyCons, keyCons] at same
      obtain ⟨rfl, behind⟩ := eq_of_rootPart_append same
      by_cases first : rest = [] <;> by_cases second : last = []
      · rw [first, second]
      · simp [first, second] at behind
      · simp [first, second] at behind
      · rw [if_neg first, if_neg second] at behind
        rw [ih (List.cons.inj behind).2]

variable {call : Call}

section Calls

variable {Tree Code : Type} {cache : Cache Code}
  {items : Entries (Text × Text) (Cached Code)}

namespace Mirrors

theorem created : Mirrors (created : Cache Code) [] where
  distinct := List.nodup_nil
  held := StampedStore.mirrors_empty
  entries := rfl
  bytes := rfl

section

variable (mirrors : Mirrors cache items)

include mirrors

theorem distinctAll :
    ((flattened cache.sources).map Prod.fst).Nodup := by
  obtain ⟨ordered, same, -, -, distinct, -⟩ := mirrors.held
  exact (same.map _).nodup_iff.mpr distinct

theorem lookup_eq (key : Text × Text) :
    items.lookup key =
      (lookupIn cache.sources key).map Stamped.value := by
  rw [lookupIn_eq mirrors.distinct mirrors.distinctAll]
  cases found : (flattened cache.sources).lookup key with
  | none =>
    exact (Entries.lookup_eq_none_iff _ _).mpr
      (mirrors.held.not_mem_of_lookup found)
  | some entry =>
    obtain ⟨ordered, same, -, -, distinct, rfl⟩ := mirrors.held
    refine Entries.lookup_of_mem ?_ (mirrors.held.mem_of_lookup found)
    rwa [StampedStore.map_fst_unstamped]

omit mirrors in
theorem held_of_perm {store other : StampedStore (Text × Text) (Cached Code)}
    (held : store.Mirrors items) (same : other.entries.Perm store.entries)
    (clock : other.clock = store.clock) : other.Mirrors items := by
  obtain ⟨ordered, perm, ascending, past, distinct, whole⟩ := held
  exact ⟨ordered, same.trans perm, ascending, clock ▸ past, distinct, whole⟩

theorem use (key : Text × Text)
    (value : Cached Code) :
    (cache.use key value).view.Mirrors
      (AgeLimits.atNewEnd items (key, value)) := by
  refine held_of_perm (mirrors.held.touch key value) ?_ rfl
  exact (flattened_storeIn mirrors.distinct mirrors.distinctAll _ _).trans
    (Entries.store_perm mirrors.distinctAll _ _).symm

omit mirrors in
/-- A turn of the loop drops the least recently used entry. -/
theorem withoutOldest {item : (Text × Text) × Cached Code}
    (mirrors : Mirrors cache (item :: items)) :
    ∃ later, cache.withoutOldest = some later ∧ Mirrors later items := by
  obtain ⟨ordered, same, ascending, past, distinct, whole⟩ := mirrors.held
  cases ordered with
  | nil => cases whole
  | cons first rest =>
    obtain ⟨rfl, rfl⟩ := List.cons.inj whole
    have oldest :
        (flattened cache.sources).argmin (fun entry => entry.2.used) =
          some first := by
      cases found :
          (flattened cache.sources).argmin fun entry => entry.2.used with
      | none =>
        rw [List.argmin_eq_none] at found
        exact absurd (same.symm.trans (List.Perm.of_eq found)).eq_nil
          (List.cons_ne_nil _ _)
      | some least =>
        have least_le :=
          List.le_of_mem_argmin (same.mem_iff.mpr List.mem_cons_self)
            found
        rcases List.mem_cons.mp
            (same.mem_iff.mp (List.argmin_mem found)) with isFirst | later
        · rw [isFirst]
        · have less := (List.pairwise_cons.mp ascending).1 _ later
          exact absurd least_le (Nat.not_le_of_lt less)
    refine ⟨_, congrArg (Option.map _) oldest, ?_, ?_, ?_, ?_⟩
    · exact nodup_removeIn mirrors.distinct first.1
    · refine ⟨rest, ?_, (List.pairwise_cons.mp ascending).2,
        fun entry member => past entry (List.mem_cons_of_mem _ member),
        (List.nodup_cons.mp distinct).2, rfl⟩
      refine (flattened_removeIn mirrors.distinct first.1).trans ?_
      refine (same.filter _).trans (List.Perm.of_eq ?_)
      exact StampedStore.remove_cons_self distinct
    · have counted := mirrors.entries
      rw [List.length_cons] at counted
      simp only [counted]
      omega
    · have counted := mirrors.bytes
      rw [AgeLimits.totalSize_cons] at counted
      simp only [counted, StampedStore.unstamped, limits]
      omega

theorem hasRoom_eq
    (item : (Text × Text) × Cached Code) :
    cache.hasRoom item.2.bytes = !limits.isOver (items ++ [item]) := by
  have size : limits.totalSize (items ++ [item]) =
      limits.totalSize items + item.2.bytes := by
    rw [AgeLimits.totalSize_append, AgeLimits.totalSize_cons,
      AgeLimits.totalSize_nil, Nat.add_zero]
    rfl
  rw [Cache.hasRoom, AgeLimits.isOver, size, mirrors.entries,
    mirrors.bytes, List.length_append, List.length_singleton,
    Bool.not_or, ← decide_not, ← decide_not]
  congr 2 <;> (refine propext ?_; simp only [limits]; omega)

/-- The loop ends, and drops what does not fit together with the new item. -/
theorem makeRoom {item : (Text × Text) × Cached Code} (fits : limits.isOver [item] = false)
    {turns : Nat} (enough : items.length < turns) :
    ∃ later kept,
      makeRoom item.2.bytes turns cache = some (later, true) ∧
        Mirrors later kept ∧ kept <:+ items ∧
        limits.dropOldest (items ++ [item]) = kept ++ [item] := by
  induction items generalizing cache turns with
  | nil =>
    obtain ⟨turns, rfl⟩ := Nat.exists_eq_add_of_lt enough
    refine ⟨cache, [], ?_, mirrors, List.suffix_refl _, ?_⟩
    · rw [TemplateCache.makeRoom, mirrors.hasRoom_eq item,
        List.nil_append, fits]
      rfl
    · rw [List.nil_append, AgeLimits.dropOldest, fits]
      rfl
  | cons first rest ih =>
    cases turns with
    | zero => exact absurd enough (Nat.not_lt_zero _)
    | succ turns =>
      rw [TemplateCache.makeRoom, mirrors.hasRoom_eq item,
        List.cons_append, AgeLimits.dropOldest]
      cases limits.isOver (first :: (rest ++ [item])) with
      | false =>
        exact ⟨cache, _, rfl, mirrors, List.suffix_refl _, rfl⟩
      | true =>
        obtain ⟨next, advanced, nextMirrors⟩ := mirrors.withoutOldest
        obtain ⟨later, kept, ran, laterMirrors, isSuffix, dropped⟩ :=
          ih nextMirrors
            (Nat.lt_of_succ_lt_succ enough)
        refine ⟨later, kept, ?_, laterMirrors,
          isSuffix.trans (List.suffix_cons _ _), dropped⟩
        rw [advanced]
        exact ran

end

end Mirrors

theorem isOver_singleton (small : call.tooLarge = false)
    (compiled : Compiled Code) :
    limits.isOver [(call.key, call.cached compiled)] = false := by
  rw [Call.tooLarge, Bool.or_eq_false_iff, decide_eq_false_iff_not,
    decide_eq_false_iff_not] at small
  rw [AgeLimits.isOver, AgeLimits.totalSize_cons,
    AgeLimits.totalSize_nil, Bool.or_eq_false_iff,
    decide_eq_false_iff_not, decide_eq_false_iff_not]
  simp only [limits, Call.cached, List.length_singleton]
  omega

variable {engine : Engine Tree Code}

structure Sound (engine : Engine Tree Code)
    (items : Entries (Text × Text) (Cached Code)) : Prop where
  within : limits.isOver items = false
  faithful : Faithful engine items

structure CallIsExact (engine : Engine Tree Code) (cache : Cache Code)
    (call : Call) (later : Cache Code)
    (document : Option (Document Code)) : Prop where
  ends :
    templateDocumentForSource engine cache call = some (later, document)
  failed :
    compiledFor engine call.roots call.source = none → later = cache
  fresh : document = none ∨ document = freshDocument engine call
  hit :
    call.inScope = true → ∀ entry,
      lookupIn cache.sources call.key = some entry →
        document = freshDocument engine call

namespace Mirrors

section

variable (mirrors : Mirrors cache items)

include mirrors

theorem unchanged
    (sound : Sound engine items)
    (ends : templateDocumentForSource engine cache call = some (cache, none))
    (missed : call.inScope = true → lookupIn cache.sources call.key = none)
    (kept : itemsNext engine items call = items) :
    ∃ later document,
      CallIsExact engine cache call later document ∧
        Mirrors later (itemsNext engine items call) ∧
        Sound engine (itemsNext engine items call) := by
  rw [kept]
  refine ⟨cache, none, ⟨ends, fun _ => rfl, Or.inl rfl, ?_⟩, mirrors, sound⟩
  intro scope entry found
  rw [missed scope] at found
  cases found

/-- A hit gives the document that a fresh parse would give. -/
theorem hit
    (sound : Sound engine items) {call : Call}
    (scope : call.inScope = true) {entry : Stamped (Cached Code)}
    (found : lookupIn cache.sources call.key = some entry) :
    ∃ later document,
      CallIsExact engine cache call later document ∧
        Mirrors later (itemsNext engine items call) ∧
        Sound engine (itemsNext engine items call) := by
  have looked := mirrors.lookup_eq call.key
  rw [found, Option.map_some] at looked
  have next :
      itemsNext engine items call =
        AgeLimits.atNewEnd items (call.key, entry.value) := by
    rw [itemsNext, scope, looked]
    rfl
  have member := Entries.mem_of_lookup looked
  have compiled := sound.faithful call.roots call.source entry.value member
  have fresh :
      documentAt call.time entry.value.compiled =
        freshDocument engine call := by
    rw [freshDocument, compiled]
    rfl
  have same :
      (AgeLimits.atNewEnd items (call.key, entry.value)).Perm items := by
    refine (List.perm_append_singleton _ _).trans
      (Entries.perm_cons_remove ?_ member).symm
    obtain ⟨ordered, -, -, -, distinct, rfl⟩ := mirrors.held
    rwa [StampedStore.map_fst_unstamped]
  rw [next]
  refine ⟨cache.use call.key entry.value, _,
    ⟨?_, ?_, Or.inr fresh, fun _ _ _ => fresh⟩,
    ⟨nodup_storeIn mirrors.distinct _ _, mirrors.use _ _, ?_, ?_⟩, ?_, ?_⟩
  · rw [templateDocumentForSource, scope, found]
    rfl
  · intro failed
    rw [compiled] at failed
    cases failed
  · exact mirrors.entries.trans (congrArg Int.ofNat same.length_eq.symm)
  · exact mirrors.bytes.trans
      (congrArg Int.ofNat (limits.totalSize_perm same).symm)
  · rw [AgeLimits.isOver, limits.totalSize_perm same, same.length_eq]
    exact sound.within
  · exact fun roots source cached held =>
      sound.faithful roots source cached (same.mem_iff.mp held)

/-- A miss stores what it compiles, and drops the least recently used. -/
theorem miss (sound : Sound engine items)
    (scope : call.inScope = true) (small : call.tooLarge = false)
    (found : lookupIn cache.sources call.key = none)
    {compiled : Compiled Code}
    (parsed :
      compiledFor engine call.roots call.source = some compiled) :
    ∃ later document,
      CallIsExact engine cache call later document ∧
        Mirrors later (itemsNext engine items call) ∧
        Sound engine (itemsNext engine items call) := by
  have looked := mirrors.lookup_eq call.key
  rw [found, Option.map_none] at looked
  have absent := (Entries.lookup_eq_none_iff _ _).mp looked
  obtain ⟨room, kept, ran, roomMirrors, isSuffix, dropped⟩ :=
    mirrors.makeRoom (isOver_singleton small compiled)
      (Nat.lt_succ_of_le (Nat.le_of_eq mirrors.held.length_eq.symm))
  have absentKept : call.key ∉ kept.map Prod.fst :=
    fun member => absent ((isSuffix.sublist.map _).subset member)
  have next :
      itemsNext engine items call =
        kept ++ [(call.key, call.cached compiled)] := by
    rw [itemsNext, scope, looked, small, parsed, ← dropped]
    dsimp only [AgeLimits.renew, AgeLimits.atNewEnd]
    rw [Entries.remove_of_not_mem absent]
    rfl
  have used :=
    roomMirrors.use call.key (call.cached compiled)
  rw [AgeLimits.atNewEnd, Entries.remove_of_not_mem absentKept] at used
  have within := limits.isOver_dropOldest
    (items ++ [(call.key, call.cached compiled)])
  rw [dropped] at within
  rw [next]
  refine ⟨room.add call.key (call.cached compiled),
    documentAt call.time compiled, ⟨?_, ?_, Or.inr ?_, ?_⟩,
    ⟨nodup_storeIn roomMirrors.distinct _ _, used, ?_, ?_⟩, within, ?_⟩
  · rw [templateDocumentForSource, scope, found, small, compileAndCache,
      parsed]
    exact congrArg (Option.map _) ran
  · intro failed
    rw [parsed] at failed
    cases failed
  · rw [freshDocument, parsed]
    rfl
  · intro _ entry isIn
    rw [found] at isIn
    cases isIn
  · rw [Cache.add, roomMirrors.entries, List.length_append]
    rfl
  · rw [Cache.add, roomMirrors.bytes, AgeLimits.totalSize_append,
      AgeLimits.totalSize_cons, AgeLimits.totalSize_nil]
    rfl
  · intro roots source cached held
    rcases List.mem_append.mp held with old | isNew
    · exact sound.faithful roots source cached (isSuffix.mem old)
    · obtain ⟨key, rfl⟩ := Prod.mk.inj (List.mem_singleton.mp isNew)
      obtain ⟨sameRoots, rfl⟩ := Prod.mk.inj key
      rw [rootKey_injective sameRoots]
      exact parsed

/-- A call keeps the accounts, and gives what a fresh parse gives. -/
theorem next
    (sound : Sound engine items) (call : Call) :
    ∃ later document,
      CallIsExact engine cache call later document ∧
        Mirrors later (itemsNext engine items call) ∧
        Sound engine (itemsNext engine items call) := by
  cases scope : call.inScope with
  | false =>
    refine mirrors.unchanged sound ?_ ?_ ?_
    · rw [templateDocumentForSource, scope]
      rfl
    · intro inScope
      rw [scope] at inScope
      cases inScope
    · rw [itemsNext, scope]
      rfl
  | true =>
    cases found : lookupIn cache.sources call.key with
    | some entry => exact mirrors.hit sound scope found
    | none =>
      have looked := mirrors.lookup_eq call.key
      rw [found, Option.map_none] at looked
      cases small : call.tooLarge with
      | true =>
        refine mirrors.unchanged sound ?_ (fun _ => found) ?_
        · rw [templateDocumentForSource, scope, found, small]
          rfl
        · rw [itemsNext, scope, looked, small]
          rfl
      | false =>
        cases parsed :
            compiledFor engine call.roots call.source with
        | some compiled =>
          exact mirrors.miss sound scope small found parsed
        | none =>
          refine mirrors.unchanged sound ?_ (fun _ => found) ?_
          · rw [templateDocumentForSource, scope, found, small,
              compileAndCache, parsed]
            rfl
          · rw [itemsNext, scope, looked, small, parsed]
            rfl

end

end Mirrors

theorem mirrors_afterCalls (engine : Engine Tree Code) (calls : List Call) :
    ∃ cache, afterCalls engine calls = some cache ∧
      Mirrors cache (itemsAfter engine calls) ∧
      Sound engine (itemsAfter engine calls) := by
  induction calls using List.reverseRecOn with
  | nil =>
    exact ⟨_, rfl, .created, rfl, fun _ _ _ member =>
      absurd member List.not_mem_nil⟩
  | append_singleton calls call ih =>
    obtain ⟨cache, ran, mirrors, sound⟩ := ih
    obtain ⟨later, document, exact', laterMirrors, laterSound⟩ :=
      mirrors.next sound call
    unfold afterCalls itemsAfter at *
    rw [List.foldl_append, List.foldl_append, ran]
    refine ⟨later, ?_, laterMirrors, laterSound⟩
    change (templateDocumentForSource engine cache call).bind _ = _
    rw [exact'.ends]
    rfl

/--
After every list of calls the counters are those of the entries that are held,
at most 16 entries of at most 1048576 bytes, and these are the entries that a
store keeps which drops the least recently used ones.  The next call ends; a
failed parse or compile changes nothing, and a hit gives the document of a
fresh parse of the same text under the same ordered roots.
-/
theorem templateCache_exact (engine : Engine Tree Code)
    (calls : List Call) (call : Call) :
    ∃ cache later document,
      afterCalls engine calls = some cache ∧
        cache.entries = (flattened cache.sources).length ∧
        cache.bytes =
          ((flattened cache.sources).map fun entry =>
            entry.2.value.bytes).sum ∧
        cache.entries ≤ 16 ∧ cache.bytes ≤ 1048576 ∧
        cache.view.Mirrors (itemsAfter engine calls) ∧
        CallIsExact engine cache call later document := by
  obtain ⟨cache, ran, mirrors, sound⟩ := mirrors_afterCalls engine calls
  obtain ⟨later, document, exact', -, -⟩ := mirrors.next sound call
  have within := sound.within
  rw [AgeLimits.isOver, Bool.or_eq_false_iff, decide_eq_false_iff_not,
    decide_eq_false_iff_not] at within
  simp only [limits] at within
  have counted := mirrors.entries
  have summed := mirrors.bytes
  refine ⟨cache, later, document, ran, ?_, ?_, ?_, ?_, mirrors.held, exact'⟩
  · rw [counted]
    exact congrArg Int.ofNat mirrors.held.length_eq.symm
  · obtain ⟨ordered, same, -, -, -, whole⟩ := mirrors.held
    rw [summed, ← whole, AgeLimits.totalSize, List.map_map]
    exact congrArg Int.ofNat (same.map _).sum_nat.symm
  · omega
  · unfold limits at summed
    omega

end Calls

end DeveloperDashboard.Page.TemplateCache
