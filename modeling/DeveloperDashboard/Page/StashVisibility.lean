import DeveloperDashboard.Library.HeapTree
import DeveloperDashboard.Library.StampedStore
import DeveloperDashboard.Page.PageIds
import DeveloperDashboard.Perl.CodePoints

namespace DeveloperDashboard.Page

open Library Perl

/-!
# The cache of legacy stash literals

`_decode_stash_section` evaluates a legacy literal in a compartment once and
keeps what it got as JSON text.  A later call with the same text decodes that
JSON.  The evaluation and the JSON module are parameters; the structures that
callers get stand in a heap that the callers may change.
-/

/-- A scalar in a decoded structure; numbers are finite. -/
inductive StashLeaf where
  | undef
  | text (characters : Text)
  | number (value : ℚ)

/-- A decoded structure; the entries of a hash stand in the order of keys. -/
abbrev StashData :=
  Tree StashLeaf Text

abbrev StashHeap :=
  Heap StashLeaf Text

/-- A string with its characters, and whether it is held as UTF-8. -/
structure SectionText where
  characters : Text
  utf8 : Bool
  deriving DecidableEq

namespace SectionText

/-- `bytes::length($text)`. -/
def byteLength (text : SectionText) : Nat :=
  (heldBytes text.utf8 (text.characters.map Char.toNat)).length

/-- `_trim($text)`. -/
def trimmed (text : SectionText) : SectionText where
  characters := trimBlank text.utf8 text.characters
  utf8 := text.utf8

/-- `$text =~ /\A[\x7b\[]/`. -/
def looksLikeJson (text : SectionText) : Bool :=
  text.characters.head?.any fun char => char = '\x7b' || char = '['

end SectionText

def isHashData : StashData → Bool
  | .hash _ => true
  | _ => false

def emptyHash : StashData :=
  .hash []

/-- What the function calls, and the bounds of the cache. -/
structure StashSetting where
  /-- `_safe_eval_stash_literal`. -/
  safeEval : SectionText → Option StashData
  /-- `json_encode`, which may die. -/
  jsonEncode : StashData → Option SectionText
  /-- `json_decode`, which may die. -/
  jsonDecode : SectionText → Option StashData
  maxEntries : Nat
  maxTextBytes : Nat

/-- The heap, `%LEGACY_STASH_CACHE` and `$LEGACY_STASH_CACHE_CLOCK`. -/
structure StashState where
  heap : StashHeap
  cache : StampedStore Text SectionText

def StashState.initial : StashState where
  heap := .empty
  cache := .empty

namespace StashState

def giving (state : StashState) (data : StashData) :
    Option (HeapValue StashLeaf) × StashState :=
  let built := state.heap.build data
  (some built.1, { state with heap := built.2 })

def dying (state : StashState) :
    Option (HeapValue StashLeaf) × StashState :=
  (none, state)

end StashState

namespace StashSetting

variable (setting : StashSetting)

/-- Whether a trimmed text may be cached, by its length. -/
def isShort (text : SectionText) : Bool :=
  decide (text.byteLength ≤ setting.maxTextBytes)

/-- The branch for JSON: the decoded hash, or an empty one. -/
def decodedJson (text : SectionText) : StashData :=
  match setting.jsonDecode text with
  | some data => if isHashData data then data else emptyHash
  | none => emptyHash

/-- `_decode_stash_section`; no value when it dies. -/
def decodeStashSection (text : SectionText) (state : StashState) :
    Option (HeapValue StashLeaf) × StashState :=
  let text := text.trimmed
  if text.characters = [] then state.giving emptyHash
  else if text.looksLikeJson then state.giving (setting.decodedJson text)
  else
    match
      if setting.isShort text then
        state.cache.entries.lookup text.characters
      else none with
    | some entry =>
      let used :=
        { state with
          cache := state.cache.touch text.characters entry.value }
      match setting.jsonDecode entry.value with
      | some copy =>
        if isHashData copy then used.giving copy else used.dying
      | none => used.dying
    | none =>
      match setting.safeEval text with
      | none => state.giving emptyHash
      | some hash =>
        if !isHashData hash then state.giving emptyHash
        else if setting.isShort text && decide (0 < setting.maxEntries)
        then
          match setting.jsonEncode hash with
          | some snapshot =>
            { state with
              cache :=
                state.cache.add setting.maxEntries text.characters
                  snapshot }.giving hash
          | none => state.dying
        else state.giving hash

end StashSetting

/-!
# What callers see of the stash cache

Whatever callers do to the structures they got, the cache is a bounded store of
the texts used last, and every structure is fresh.  A call answers as without a
cache as long as the JSON text of a literal decodes to what every text of the
same characters is evaluated to.
-/

variable {text : SectionText} {state : StashState}
  {used : List (Text × SectionText)}

namespace StashSetting

variable (setting : StashSetting)

/-- What a legacy literal gives without a cache. -/
def evaluated (text : SectionText) : StashData :=
  match setting.safeEval text with
  | some hash => if isHashData hash then hash else emptyHash
  | none => emptyHash

/-- What `_decode_stash_section` gives without a cache. -/
def uncachedDecode (text : SectionText) : StashData :=
  let text := text.trimmed
  if text.characters = [] then emptyHash
  else if text.looksLikeJson then setting.decodedJson text
  else setting.evaluated text

def IsShortLegacy (text : SectionText) : Prop :=
  text.characters ≠ [] ∧ text.looksLikeJson = false ∧
    setting.isShort text = true

def usedItem? (text : SectionText) (state : StashState) :
    Option (Text × SectionText) :=
  let text := text.trimmed
  if text.characters = [] || text.looksLikeJson ||
      !setting.isShort text then
    none
  else
    match state.cache.entries.lookup text.characters with
    | some entry => some (text.characters, entry.value)
    | none =>
      match setting.safeEval text with
      | some hash =>
        if isHashData hash && decide (0 < setting.maxEntries) then
          (setting.jsonEncode hash).map (Prod.mk text.characters)
        else none
      | none => none

structure Caches (text : SectionText) (hash : StashData) : Prop where
  isShortLegacy : setting.IsShortLegacy text.trimmed
  positive : 0 < setting.maxEntries
  evaluates : setting.safeEval text.trimmed = some hash
  isHash : isHashData hash = true

/--
Where the first text is cached, its JSON is decoded to what the second one, of
the same characters, is evaluated to.
-/
def CacheAgrees (first second : SectionText) : Prop :=
  first.trimmed.characters = second.trimmed.characters →
    setting.IsShortLegacy second.trimmed →
    ∀ hash, setting.Caches first hash →
      ∃ snapshot, setting.jsonEncode hash = some snapshot ∧
        setting.jsonDecode snapshot = some (setting.uncachedDecode second)

/-- The states of a run over some texts, with the entries used so far. -/
inductive Reached (allowed : SectionText → Prop) :
    StashState → List (Text × SectionText) → Prop
  | initial : Reached allowed .initial []
  | call
      {state : StashState} {used : List (Text × SectionText)}
      (reached : Reached allowed state used)
      {text : SectionText} (isAllowed : allowed text) :
      Reached allowed (setting.decodeStashSection text state).2
        (used ++ (setting.usedItem? text state).toList)
  | mutate
      {state : StashState} {used : List (Text × SectionText)}
      (reached : Reached allowed state used)
      {heap : StashHeap} (grows : state.heap.next ≤ heap.next)
      (closed : heap.ClosedFrom 0) :
      Reached allowed { state with heap } used

/-- A call returns what an uncached one does, in fresh containers. -/
def AnswersAsUncached (text : SectionText) (state : StashState) : Prop :=
  ∃ value,
    (setting.decodeStashSection text state).1 = some value ∧
      (setting.decodeStashSection text state).2.heap.Reads value
        (setting.uncachedDecode text) ∧
      state.heap.Extends (setting.decodeStashSection text state).2.heap ∧
      ∀ old : HeapValue StashLeaf, old.Between 0 state.heap.next →
        (setting.decodeStashSection text state).2.heap.Apart old value

/-- The cache is bounded, and holds the entries that were used last. -/
structure KeepsNewest
    (state : StashState) (used : List (Text × SectionText)) : Prop where
  entries_le : state.cache.entries.length ≤ setting.maxEntries
  texts_le :
    ∀ entry ∈ state.cache.entries, ∃ utf8,
      ({ characters := entry.1, utf8 } : SectionText).byteLength ≤
        setting.maxTextBytes
  newest :
    state.cache.Mirrors
      ((AgeLimits.ofCount setting.maxEntries).renewed used)

/-- What the cache promises in every run over some texts. -/
def StaysInvisible (allowed : SectionText → Prop) : Prop :=
  ∀ state used, setting.Reached allowed state used →
    setting.KeepsNewest state used ∧
      ∀ text, allowed text → setting.AnswersAsUncached text state

inductive CallOutcome (text : SectionText) (state : StashState) :
    Option (HeapValue StashLeaf) × StashState →
      Option (Text × SectionText) → Prop
  | fresh :
      CallOutcome text state
        (state.giving (setting.uncachedDecode text)) none
  | died {hash : StashData} (caches : setting.Caches text hash)
      (notEncoded : setting.jsonEncode hash = none) :
      CallOutcome text state state.dying none
  | stored {hash : StashData} {snapshot : SectionText}
      (caches : setting.Caches text hash)
      (missing :
        state.cache.entries.lookup text.trimmed.characters = none)
      (encoded : setting.jsonEncode hash = some snapshot) :
      CallOutcome text state
        ({ state with
          cache :=
            state.cache.add setting.maxEntries text.trimmed.characters
              snapshot }.giving hash)
        (some (text.trimmed.characters, snapshot))
  | hit {entry : Stamped SectionText} {copy : StashData}
      (isShortLegacy : setting.IsShortLegacy text.trimmed)
      (found :
        state.cache.entries.lookup text.trimmed.characters = some entry)
      (decoded : setting.jsonDecode entry.value = some copy)
      (isHash : isHashData copy = true) :
      CallOutcome text state
        ({ state with
          cache :=
            state.cache.touch text.trimmed.characters
              entry.value }.giving copy)
        (some (text.trimmed.characters, entry.value))
  | hitDied {entry : Stamped SectionText}
      (isShortLegacy : setting.IsShortLegacy text.trimmed)
      (found :
        state.cache.entries.lookup text.trimmed.characters = some entry)
      (notDecoded : ∀ copy, setting.jsonDecode entry.value = some copy →
        isHashData copy = false) :
      CallOutcome text state
        { state with
          cache :=
            state.cache.touch text.trimmed.characters entry.value }.dying
        (some (text.trimmed.characters, entry.value))

theorem callOutcome (text : SectionText) (state : StashState) :
    setting.CallOutcome text state
      (setting.decodeStashSection text state)
      (setting.usedItem? text state) := by
  have fresh := @CallOutcome.fresh setting text state
  unfold uncachedDecode at fresh
  unfold decodeStashSection usedItem?
  by_cases isEmpty : text.trimmed.characters = []
  · simp only [isEmpty, if_true, decide_true, Bool.true_or] at fresh ⊢
    exact fresh
  by_cases isJson : text.trimmed.looksLikeJson = true
  · simp only [isEmpty, isJson, if_true, if_false, Bool.or_true,
      Bool.true_or] at fresh ⊢
    exact fresh
  rw [Bool.not_eq_true] at isJson
  simp only [isEmpty, isJson, if_false, decide_false, Bool.or_self,
    Bool.false_or, Bool.false_eq_true] at fresh ⊢
  by_cases isShort : setting.isShort text.trimmed = true
  · have isShortLegacy : setting.IsShortLegacy text.trimmed :=
      ⟨isEmpty, isJson, isShort⟩
    simp only [isShort, if_true, Bool.not_true, Bool.false_eq_true, if_false]
    cases found : state.cache.entries.lookup text.trimmed.characters with
    | some entry =>
      simp only
      cases decoded : setting.jsonDecode entry.value with
      | none =>
        refine .hitDied isShortLegacy found fun copy same => ?_
        rw [decoded] at same
        cases same
      | some copy =>
        simp only
        by_cases isHash : isHashData copy = true
        · rw [if_pos isHash]
          exact .hit isShortLegacy found decoded isHash
        · rw [if_neg isHash]
          refine .hitDied isShortLegacy found fun other same => ?_
          rw [decoded] at same
          cases same
          exact Bool.eq_false_iff.mpr isHash
    | none =>
      simp only
      unfold evaluated at fresh
      cases evaluates : setting.safeEval text.trimmed with
      | none =>
        simp only [evaluates] at fresh
        exact fresh
      | some hash =>
        by_cases isHash : isHashData hash = true
        · by_cases positive : 0 < setting.maxEntries
          · have caches : setting.Caches text hash :=
              ⟨isShortLegacy, positive, evaluates, isHash⟩
            simp only [isHash, positive, decide_true, Bool.not_true,
              Bool.and_self, Bool.false_eq_true, if_false, if_true]
            cases encoded : setting.jsonEncode hash with
            | none => exact .died caches encoded
            | some snapshot => exact .stored caches found encoded
          · simp only [evaluates, isHash, positive, decide_false,
              Bool.not_true, Bool.and_false, Bool.false_eq_true,
              if_false, if_true] at fresh ⊢
            exact fresh
        · simp only [evaluates, isHash,
            Bool.false_and, Bool.false_eq_true, Bool.not_false,
            if_false, if_true] at fresh ⊢
          exact fresh
  · simp only [isShort, Bool.not_false, Bool.false_and,
      Bool.false_eq_true, if_false, if_true]
    unfold evaluated at fresh
    cases evaluates : setting.safeEval text.trimmed with
    | none =>
      simp only [evaluates] at fresh
      exact fresh
    | some hash =>
      by_cases isHash : isHashData hash = true
      · simp only [evaluates, isHash, if_true, Bool.not_true,
          Bool.false_eq_true, if_false] at fresh ⊢
        exact fresh
      · simp only [evaluates, isHash, Bool.false_eq_true, if_false,
          Bool.not_false, if_true] at fresh ⊢
        exact fresh

theorem answersAsUncached_of_giving {used : StashState}
    (closed : state.heap.ClosedFrom 0) (sameHeap : used.heap = state.heap)
    (gives :
      setting.decodeStashSection text state =
        used.giving (setting.uncachedDecode text)) :
    setting.AnswersAsUncached text state := by
  unfold AnswersAsUncached
  rw [gives]
  unfold StashState.giving
  simp only [sameHeap]
  exact ⟨_, rfl, Heap.reads_build _ _, (Heap.adds_build _ _).1.extended,
    fun old isOld => Heap.apart_build closed _ isOld⟩

structure Invariant
    (allowed : SectionText → Prop)
    (state : StashState) (used : List (Text × SectionText)) : Prop where
  closed : state.heap.ClosedFrom 0
  mirrors :
    state.cache.Mirrors
      ((AgeLimits.ofCount setting.maxEntries).renewed used)
  origin :
    ∀ item ∈ used, ∃ text hash,
      allowed text ∧ setting.Caches text hash ∧
        text.trimmed.characters = item.1 ∧
        setting.jsonEncode hash = some item.2

variable {setting}

theorem Invariant.origin_of_lookup {allowed : SectionText → Prop}
    (invariant : setting.Invariant allowed state used)
    {characters : Text} {entry : Stamped SectionText}
    (found : state.cache.entries.lookup characters = some entry) :
    ∃ text hash,
      allowed text ∧ setting.Caches text hash ∧
        text.trimmed.characters = characters ∧
        setting.jsonEncode hash = some entry.value :=
  invariant.origin (characters, entry.value)
    (AgeLimits.mem_of_mem_renewed _
      (invariant.mirrors.mem_of_lookup found))

theorem renewed_concat (limits : AgeLimits SectionText)
    (used : List (Text × SectionText)) (item : Text × SectionText) :
    limits.renewed (used ++ [item]) =
      limits.renew (limits.renewed used) item := by
  unfold AgeLimits.renewed
  rw [List.foldl_append]
  rfl

theorem closed_giving {state : StashState} (closed : state.heap.ClosedFrom 0)
    (data : StashData) : (state.giving data).2.heap.ClosedFrom 0 :=
  (Heap.adds_build state.heap data).1.closed 0 (Nat.zero_le _) closed

theorem Invariant.call {allowed : SectionText → Prop}
    {state : StashState} {used : List (Text × SectionText)}
    (invariant : setting.Invariant allowed state used)
    {text : SectionText} (isAllowed : allowed text) :
    setting.Invariant allowed (setting.decodeStashSection text state).2
      (used ++ (setting.usedItem? text state).toList) := by
  have touched {entry : Stamped SectionText}
      (found :
        state.cache.entries.lookup text.trimmed.characters =
          some entry) :
      (state.cache.touch text.trimmed.characters entry.value).Mirrors
        ((AgeLimits.ofCount setting.maxEntries).renewed
          (used ++ [(text.trimmed.characters, entry.value)])) := by
    have held := invariant.mirrors.mem_of_lookup found
    rw [renewed_concat]
    exact invariant.mirrors.touch_renew
      (AgeLimits.length_renewed_le _) entry.value
      (List.mem_map_of_mem held)
  have origin {item : Text × SectionText}
      (isOrigin : ∃ text hash, allowed text ∧ setting.Caches text hash ∧
          text.trimmed.characters = item.1 ∧
          setting.jsonEncode hash = some item.2) :
      ∀ other ∈ used ++ [item], ∃ text hash,
        allowed text ∧ setting.Caches text hash ∧
          text.trimmed.characters = other.1 ∧
          setting.jsonEncode hash = some other.2 := by
    intro other member
    rcases List.mem_append.mp member with earlier | isLast
    · exact invariant.origin other earlier
    · rw [List.mem_singleton.mp isLast]
      exact isOrigin
  have outcome := setting.callOutcome text state
  generalize setting.decodeStashSection text state = result at outcome ⊢
  generalize setting.usedItem? text state = item at outcome ⊢
  cases outcome with
  | fresh =>
    rw [Option.toList_none, List.append_nil]
    exact ⟨closed_giving invariant.closed _, invariant.mirrors,
      invariant.origin⟩
  | died =>
    rw [Option.toList_none, List.append_nil]
    exact invariant
  | @stored hash snapshot caches missing encoded =>
    refine ⟨@closed_giving { state with cache := _ } invariant.closed _,
      ?_, origin ⟨text, hash, isAllowed, caches, rfl, encoded⟩⟩
    rw [Option.toList_some, renewed_concat]
    exact invariant.mirrors.add caches.positive snapshot
      (invariant.mirrors.not_mem_of_lookup missing)
  | @hit entry copy isShortLegacy found =>
    exact ⟨@closed_giving { state with cache := _ } invariant.closed _,
      touched found, origin (invariant.origin_of_lookup found)⟩
  | @hitDied entry isShortLegacy found =>
    exact ⟨invariant.closed, touched found,
      origin (invariant.origin_of_lookup found)⟩

theorem Reached.invariant {allowed : SectionText → Prop}
    (reached : setting.Reached allowed state used) :
    setting.Invariant allowed state used := by
  induction reached with
  | initial =>
    refine ⟨fun id _ below => absurd below (Nat.not_lt_zero id),
      StampedStore.mirrors_empty, ?_⟩
    exact fun _ member => absurd member List.not_mem_nil
  | call _ isAllowed ih =>
    exact ih.call isAllowed
  | mutate _ _ closed ih =>
    exact ⟨closed, ih.mirrors, ih.origin⟩

/-- The cache is bounded in every run. -/
theorem Invariant.keepsNewest {allowed : SectionText → Prop}
    (invariant : setting.Invariant allowed state used) :
    setting.KeepsNewest state used where
  entries_le := by
    rw [invariant.mirrors.length_eq]
    exact AgeLimits.length_renewed_le _
  texts_le := by
    intro entry member
    have held :
        (entry.1, entry.2.value) ∈
          (AgeLimits.ofCount setting.maxEntries).renewed used :=
      invariant.mirrors.mem member
    obtain ⟨text, hash, -, caches, same, -⟩ :=
      invariant.origin _ (AgeLimits.mem_of_mem_renewed _ held)
    refine ⟨text.utf8, ?_⟩
    have short := of_decide_eq_true caches.isShortLegacy.2.2
    rw [← same]
    exact short
  newest := invariant.mirrors

theorem decodeStashSection_of_missing
    {text : SectionText} {state : StashState} {hash : StashData}
    (caches : setting.Caches text hash)
    (missing :
      state.cache.entries.lookup text.trimmed.characters = none) :
    (setting.jsonEncode hash = none →
      setting.decodeStashSection text state = state.dying) ∧
    ∀ snapshot, setting.jsonEncode hash = some snapshot →
      setting.decodeStashSection text state =
        { state with
          cache :=
            state.cache.add setting.maxEntries text.trimmed.characters
              snapshot }.giving hash := by
  obtain ⟨⟨notEmpty, notJson, isShort⟩, positive, evaluates, isHash⟩ :=
    caches
  constructor
  · intro notEncoded
    simp [decodeStashSection, notEmpty, notJson, isShort, missing,
      evaluates, isHash, positive, notEncoded]
  · intro snapshot encoded
    simp [decodeStashSection, notEmpty, notJson, isShort, missing,
      evaluates, isHash, positive, encoded]

theorem decodeStashSection_of_found {entry : Stamped SectionText}
    (isShortLegacy : setting.IsShortLegacy text.trimmed)
    (found :
      state.cache.entries.lookup text.trimmed.characters = some entry)
    {value : HeapValue StashLeaf}
    (returned :
      (setting.decodeStashSection text state).1 = some value) :
    ∃ copy, setting.jsonDecode entry.value = some copy ∧
      (setting.decodeStashSection text state).2.heap.Reads value copy := by
  obtain ⟨notEmpty, notJson, isShort⟩ := isShortLegacy
  cases decoded : setting.jsonDecode entry.value with
  | none =>
    simp [decodeStashSection, notEmpty, notJson, isShort, found, decoded,
      StashState.dying] at returned
  | some copy =>
    by_cases isHash : isHashData copy = true
    · have gives :
          setting.decodeStashSection text state =
            { state with
              cache :=
                state.cache.touch text.trimmed.characters
                  entry.value }.giving copy := by
        simp [decodeStashSection, notEmpty, notJson, isShort, found,
          decoded, isHash]
      rw [gives] at returned ⊢
      refine ⟨copy, rfl, ?_⟩
      obtain rfl := Option.some.inj returned
      exact Heap.reads_build _ _
    · simp [decodeStashSection, notEmpty, notJson, isShort, found,
        decoded, isHash, StashState.dying] at returned

theorem Caches.uncachedDecode_eq {hash : StashData}
    (caches : setting.Caches text hash) :
    setting.uncachedDecode text = hash := by
  obtain ⟨⟨notEmpty, notJson, -⟩, -, evaluates, isHash⟩ := caches
  simp [uncachedDecode, evaluated, notEmpty, notJson, evaluates, isHash]

/-- A call without a cache gives a hash. -/
theorem isHashData_uncachedDecode (text : SectionText) :
    isHashData (setting.uncachedDecode text) = true := by
  have emptyIsHash : isHashData emptyHash = true := rfl
  unfold uncachedDecode decodedJson evaluated
  simp only
  split
  · exact emptyIsHash
  · split
    · split
      · split
        · next isHash => exact isHash
        · exact emptyIsHash
      · exact emptyIsHash
    · split
      · split
        · next isHash => exact isHash
        · exact emptyIsHash
      · exact emptyIsHash

variable {allowed : SectionText → Prop}

theorem Invariant.answersAsUncached
    (invariant : setting.Invariant allowed state used)
    (agrees : ∀ first second, allowed first → allowed second →
      setting.CacheAgrees first second)
    (isAllowed : allowed text) :
    setting.AnswersAsUncached text state := by
  have decoded {entry : Stamped SectionText}
      (isShortLegacy : setting.IsShortLegacy text.trimmed)
      (found :
        state.cache.entries.lookup text.trimmed.characters =
          some entry) :
      setting.jsonDecode entry.value =
        some (setting.uncachedDecode text) := by
    obtain ⟨first, hash, firstAllowed, caches, same, encoded⟩ :=
      invariant.origin_of_lookup found
    obtain ⟨snapshot, isSnapshot, decodes⟩ :=
      agrees first text firstAllowed isAllowed same isShortLegacy hash
        caches
    rw [encoded] at isSnapshot
    rwa [Option.some.inj isSnapshot]
  have outcome := setting.callOutcome text state
  generalize returned : setting.decodeStashSection text state = result
    at outcome
  generalize setting.usedItem? text state = item at outcome
  cases outcome with
  | fresh =>
    exact setting.answersAsUncached_of_giving invariant.closed rfl
      returned
  | @died hash caches notEncoded =>
    obtain ⟨snapshot, isSnapshot, -⟩ :=
      agrees text text isAllowed isAllowed rfl caches.isShortLegacy hash
        caches
    rw [notEncoded] at isSnapshot
    cases isSnapshot
  | stored caches =>
    rw [← caches.uncachedDecode_eq] at returned
    refine setting.answersAsUncached_of_giving invariant.closed ?_
      returned
    rfl
  | hit isShortLegacy found isCopy =>
    rw [decoded isShortLegacy found] at isCopy
    rw [← Option.some.inj isCopy] at returned
    refine setting.answersAsUncached_of_giving invariant.closed ?_
      returned
    rfl
  | hitDied isShortLegacy found notDecoded =>
    have notHash := notDecoded _ (decoded isShortLegacy found)
    rw [isHashData_uncachedDecode] at notHash
    cases notHash

/-- Two calls, one after the other, show whether a text is decoded alike. -/
theorem StaysInvisible.agrees (invisible : setting.StaysInvisible allowed)
    {first second : SectionText}
    (firstAllowed : allowed first) (secondAllowed : allowed second) :
    setting.CacheAgrees first second := by
  intro same isShortLegacy hash caches
  obtain ⟨value, returned, -⟩ :=
    (invisible _ _ .initial).2 first firstAllowed
  obtain ⟨dies, stores⟩ :=
    @decodeStashSection_of_missing setting first .initial hash caches rfl
  cases encoded : setting.jsonEncode hash with
  | none =>
    rw [dies encoded] at returned
    cases returned
  | some snapshot =>
    have reached :=
      @Reached.call setting allowed _ _ .initial first firstAllowed
    rw [stores snapshot encoded] at reached
    obtain ⟨value, returned, reads, -⟩ :=
      (invisible _ _ reached).2 second secondAllowed
    have found :
        Entries.lookup
            ((StashState.initial.cache.add setting.maxEntries
              first.trimmed.characters snapshot).entries)
            second.trimmed.characters =
          some { value := snapshot, used := 1 } := by
      rw [← same]
      exact Entries.lookup_store_self _ _ _
    obtain ⟨copy, decoded, readsCopy⟩ :=
      decodeStashSection_of_found isShortLegacy found returned
    refine ⟨snapshot, rfl, ?_⟩
    rw [decoded, reads.unique readsCopy]

variable (setting) (allowed)

/--
The cache stays invisible in every run over some texts if and only if, where a
text of them is cached, its JSON decodes to what every text of them with the
same characters is evaluated to.
-/
theorem staysInvisible_iff :
    setting.StaysInvisible allowed ↔
      ∀ first second, allowed first → allowed second →
        setting.CacheAgrees first second := by
  constructor
  · intro invisible first second firstAllowed secondAllowed
    exact invisible.agrees firstAllowed secondAllowed
  · intro agrees state used reached
    have invariant := reached.invariant
    exact ⟨invariant.keepsNewest, fun text isAllowed =>
      invariant.answersAsUncached agrees isAllowed⟩

end StashSetting

def nestedArrays : Nat → StashData
  | 0 => .array []
  | count + 1 => .array [nestedArrays count]

/-- How deep a chain of arrays goes. -/
def arrayDepth : StashData → Nat
  | .array [inner] => arrayDepth inner + 1
  | .array _ => 1
  | _ => 0

/-- The legacy text of 600 arrays inside each other. -/
def deepText : SectionText where
  characters :=
    "x => ".toList ++ List.replicate 600 '[' ++ List.replicate 600 ']'
  utf8 := false

def deepHash : StashData :=
  .hash [(['x'], nestedArrays 599)]

/-- An encoder that dies below 512 levels, as the JSON module does. -/
def deepSetting : StashSetting where
  safeEval text := if text = deepText then some deepHash else none
  jsonEncode data :=
    match data with
    | .hash [(_, inner)] =>
      if 512 < arrayDepth inner + 1 then none
      else some { characters := [], utf8 := false }
    | _ => some { characters := [], utf8 := false }
  jsonDecode _ := none
  maxEntries := 32
  maxTextBytes := 65536

theorem arrayDepth_nestedArrays (count : Nat) :
    arrayDepth (nestedArrays count) = count + 1 := by
  induction count with
  | zero => rfl
  | succ count ih =>
    rw [nestedArrays, arrayDepth, ih]

theorem caches_deepText : deepSetting.Caches deepText deepHash where
  isShortLegacy := by
    refine ⟨?_, ?_, ?_⟩
    · decide +kernel
    · decide +kernel
    · decide +kernel
  positive := by decide
  evaluates := by
    have trimmed : deepText.trimmed = deepText := by decide +kernel
    unfold deepSetting
    simp only [trimmed, if_true]
  isHash := rfl

theorem jsonEncode_deepHash : deepSetting.jsonEncode deepHash = none := by
  unfold deepSetting deepHash
  simp only [arrayDepth_nestedArrays]
  exact if_pos (by decide)

/-- A literal that the encoder refuses is lost. -/
theorem deep_literal_dies :
    ¬ deepSetting.StaysInvisible fun text => text = deepText := by
  intro invisible
  obtain ⟨snapshot, encoded, -⟩ :=
    @StashSetting.StaysInvisible.agrees deepSetting _ invisible deepText
      deepText rfl rfl rfl caches_deepText.isShortLegacy deepHash
      caches_deepText
  rw [jsonEncode_deepHash] at encoded
  cases encoded

end DeveloperDashboard.Page
