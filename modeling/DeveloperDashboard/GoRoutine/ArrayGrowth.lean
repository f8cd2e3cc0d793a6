import DeveloperDashboard.Library.SpareArray

namespace DeveloperDashboard.GoRoutine

open Library

/-!
# How the slots of a shared array grow

The sizes of a shared array node in the words of a 64-bit machine: how many
elements it has, how many slots it counts, and how many bytes the block of its
slots has.  The growing calls are followed up to where the element is put into
its slot; what is in the slots does not matter here.
-/

/-- One more than `SIZE_MAX`. -/
def sizeWords : Nat :=
  2 ^ 64

/-- `sizeof(shared_node *)`. -/
def slotBytes : Nat :=
  8

/-- `array_size`, `array_capacity` and the bytes of the block `array_items`. -/
structure ArrayExtent where
  size : Nat
  capacity : Nat
  allocated : Nat
  deriving DecidableEq

inductive Growth where
  | endless
  | croaked (message : String) (array : ArrayExtent)
  | overrun
  | done (array : ArrayExtent)

def Growth.andThen
    (growth : Growth) (next : ArrayExtent → ArrayExtent) : Growth :=
  match growth with
  | .done array => .done (next array)
  | other => other

namespace ArrayExtent

/-- A node as the calls leave it: the block has a place for each slot. -/
structure IsSound (array : ArrayExtent) : Prop where
  size_le : array.size ≤ array.capacity
  allocated_eq : array.allocated = slotBytes * array.capacity

def firstCapacity (array : ArrayExtent) : Nat :=
  if array.capacity = 0 then 8 else array.capacity * 2 % sizeWords

/-- The capacity at which the doubling ends, if it ends. -/
def grownCapacity (array : ArrayExtent) (need : Nat) : Option Nat :=
  doubleWord 64 65 array.firstCapacity need

/--
`shared_array_reserve`.  `grants` says for which sizes `realloc` succeeds.  The
new slots are cleared in the new block, which is as large as the product of
two words comes out.
-/
def sharedArrayReserve
    (grants : Nat → Bool) (array : ArrayExtent) (need : Nat) : Growth :=
  if array.capacity < need then
    match array.grownCapacity need with
    | none => .endless
    | some capacity =>
      let bytes := capacity * slotBytes % sizeWords
      let cleared :=
        (capacity + sizeWords - array.capacity) % sizeWords * slotBytes %
          sizeWords
      if grants bytes then
        if array.capacity * slotBytes + cleared ≤ bytes then
          .done { array with capacity, allocated := bytes }
        else .overrun
      else .croaked "out of memory growing shared array" array
  else .done array

/-- Growing an array for a slot, and counting the slot. -/
def growForIndex
    (grants : Nat → Bool) (array : ArrayExtent) (index : Int64) : Growth :=
  if index.toInt < 0 then
    .croaked "negative shared array index not supported for STORE" array
  else
    let slot := index.toInt.toNat
    let need := (slot + 1) % sizeWords
    (array.sharedArrayReserve grants need).andThen fun later =>
      { later with size := if later.size ≤ slot then need else later.size }

/-- `_shared_array_store`, up to the import of the value. -/
def sharedArrayStore
    (grants : Nat → Bool) (array : ArrayExtent) (index : Int64) : Growth :=
  array.growForIndex grants index

/-- `_shared_array_store_ptr`. -/
def sharedArrayStorePtr
    (grants : Nat → Bool) (array : ArrayExtent) (index : Int64) : Growth :=
  array.growForIndex grants index

/-- `_shared_array_resize`. -/
def sharedArrayResize
    (grants : Nat → Bool) (array : ArrayExtent) (newSize : UInt64) :
    Growth :=
  (array.sharedArrayReserve grants newSize.toNat).andThen fun later =>
    { later with size := newSize.toNat }

end ArrayExtent

/-- The calls that grow an array to an index or a size of the caller. -/
inductive GrowthCall where
  | store (index : Int64)
  | storePtr (index : Int64)
  | resize (newSize : UInt64)

namespace GrowthCall

def IsAccepted : GrowthCall → Prop
  | .store index => 0 ≤ index.toInt
  | .storePtr index => 0 ≤ index.toInt
  | .resize _ => True

/-- How many slots the caller asks for. -/
def need : GrowthCall → Nat
  | .store index => index.toInt.toNat + 1
  | .storePtr index => index.toInt.toNat + 1
  | .resize newSize => newSize.toNat

def run (grants : Nat → Bool) (array : ArrayExtent) :
    GrowthCall → Growth
  | .store index => array.sharedArrayStore grants index
  | .storePtr index => array.sharedArrayStorePtr grants index
  | .resize newSize => array.sharedArrayResize grants newSize

end GrowthCall

structure GrowsSafely (array : ArrayExtent) (call : GrowthCall) : Prop where
  terminates :
    array.capacity < call.need →
      ∃ fuel capacity,
        doubleWord 64 fuel array.firstCapacity call.need = some capacity
  fits :
    array.capacity < call.need →
      ∀ fuel capacity,
        doubleWord 64 fuel array.firstCapacity call.need = some capacity →
          capacity * slotBytes < sizeWords
  after :
    ∀ grants,
      (∃ message, call.run grants array = .croaked message array) ∨
        ∃ later, call.run grants array = .done later ∧
          call.need ≤ later.capacity ∧
          ∀ slot < later.size, slotBytes * (slot + 1) ≤ later.allocated

/--
A power of two times the first capacity covers the need and leaves room for
the size of a slot, or nothing has to grow.
-/
def HasFittingCapacity (array : ArrayExtent) (need : Nat) : Prop :=
  need ≤ array.capacity ∨
    ∃ turns, need ≤ array.firstCapacity * 2 ^ turns ∧
      array.firstCapacity * 2 ^ turns < 2 ^ 61

variable {array : ArrayExtent}

theorem firstCapacity_eq (small : array.capacity < 2 ^ 60) :
    array.firstCapacity =
      if array.capacity = 0 then 8 else array.capacity * 2 := by
  unfold ArrayExtent.firstCapacity sizeWords
  split
  · rfl
  · rw [Nat.mod_eq_of_lt (by omega)]

theorem capacity_lt_firstCapacity (small : array.capacity < 2 ^ 60) :
    array.capacity < array.firstCapacity ∧ array.firstCapacity < 2 ^ 61 := by
  rw [firstCapacity_eq small]
  split
  · omega
  · omega

theorem sharedArrayReserve_of_fits
    (small : array.capacity < 2 ^ 60) (sound : array.IsSound)
    {need : Nat} (fitting : HasFittingCapacity array need)
    (grants : Nat → Bool) :
    (∃ message,
      array.sharedArrayReserve grants need = .croaked message array) ∨
      ∃ later, array.sharedArrayReserve grants need = .done later ∧
        later.size = array.size ∧ need ≤ later.capacity ∧
        array.capacity ≤ later.capacity ∧
        later.allocated = slotBytes * later.capacity := by
  unfold ArrayExtent.sharedArrayReserve
  split
  · next short =>
      rcases fitting with enough | ⟨turns, covered, fits⟩
      · omega
      · have words : array.firstCapacity * 2 ^ turns < 2 ^ 64 :=
          fits.trans (by decide)
        obtain ⟨fewer, least, ends, covers⟩ :=
          doubleWord_of_fits covered words
        have first := (capacity_lt_firstCapacity small).1
        have grown :
            array.firstCapacity * 1 ≤ array.firstCapacity * 2 ^ fewer :=
          Nat.mul_le_mul_left _ Nat.one_le_two_pow
        have below :
            array.firstCapacity * 2 ^ fewer ≤
              array.firstCapacity * 2 ^ turns :=
          Nat.mul_le_mul_left _ (Nat.pow_le_pow_right (by decide) least)
        rw [ArrayExtent.grownCapacity, ends]
        generalize array.firstCapacity * 2 ^ fewer = capacity at *
        have bytes : capacity * slotBytes % sizeWords = capacity * slotBytes :=
          Nat.mod_eq_of_lt (by unfold slotBytes sizeWords; omega)
        have cleared :
            (capacity + sizeWords - array.capacity) % sizeWords * slotBytes %
                sizeWords =
              (capacity - array.capacity) * slotBytes := by
          unfold slotBytes sizeWords
          omega
        simp only [bytes, cleared]
        split
        · rw [if_pos (by unfold slotBytes; omega)]
          refine .inr ⟨_, rfl, rfl, covers, ?_, ?_⟩
          · simp only
            omega
          · exact Nat.mul_comm _ _
        · exact .inl ⟨_, rfl⟩
  · next enough =>
      exact .inr
        ⟨array, rfl, rfl, by omega, Nat.le_refl _, sound.allocated_eq⟩

theorem growForIndex_eq
    (grants : Nat → Bool) (array : ArrayExtent) {index : Int64}
    (accepted : 0 ≤ index.toInt) :
    array.growForIndex grants index =
      (array.sharedArrayReserve grants (index.toInt.toNat + 1)).andThen
        fun later =>
          { later with
            size := max later.size (index.toInt.toNat + 1) } := by
  have upper : index.toInt < 2 ^ 63 := Int64.toInt_lt index
  have need :
      (index.toInt.toNat + 1) % sizeWords = index.toInt.toNat + 1 :=
    Nat.mod_eq_of_lt (by unfold sizeWords; omega)
  unfold ArrayExtent.growForIndex
  rw [if_neg (by omega)]
  simp only [need]
  congr 1
  funext later
  congr 1
  split
  · omega
  · omega

theorem run_eq
    (grants : Nat → Bool) (array : ArrayExtent) {call : GrowthCall}
    (accepted : call.IsAccepted) :
    ∃ count : ArrayExtent → Nat,
      call.run grants array =
        (array.sharedArrayReserve grants call.need).andThen
          (fun later => { later with size := count later }) ∧
      ∀ later, count later ≤ max later.size call.need := by
  cases call with
  | store index =>
    exact ⟨_, growForIndex_eq grants array accepted,
      fun later => Nat.le_refl _⟩
  | storePtr index =>
    exact ⟨_, growForIndex_eq grants array accepted,
      fun later => Nat.le_refl _⟩
  | resize newSize =>
    exact ⟨_, rfl, fun later => Nat.le_max_right _ _⟩

theorem hasFittingCapacity_of_growsSafely
    {call : GrowthCall} (small : array.capacity < 2 ^ 60)
    (safe : GrowsSafely array call) :
    HasFittingCapacity array call.need := by
  by_cases enough : call.need ≤ array.capacity
  · exact .inl enough
  · have short : array.capacity < call.need := by omega
    obtain ⟨fuel, capacity, ends⟩ := safe.terminates short
    have fits := safe.fits short fuel capacity ends
    unfold slotBytes sizeWords at fits
    have isWord : array.firstCapacity < 2 ^ 64 :=
      (capacity_lt_firstCapacity small).2.trans (by decide)
    obtain ⟨turns, rfl, covered⟩ :=
      exists_of_doubleWord isWord ends (by omega)
    exact .inr ⟨turns, covered, by omega⟩

/--
A growing call is safe if and only if nothing has to grow or a fitting
capacity exists.
-/
theorem growsSafely_iff (array : ArrayExtent) (call : GrowthCall)
    (sound : array.IsSound) (small : array.capacity < 2 ^ 64 / 16)
    (accepted : call.IsAccepted) :
    GrowsSafely array call ↔ HasFittingCapacity array call.need := by
  have bound : array.capacity < 2 ^ 60 := small
  constructor
  · exact hasFittingCapacity_of_growsSafely bound
  · intro fitting
    have isWord : array.firstCapacity < 2 ^ 64 :=
      (capacity_lt_firstCapacity bound).2.trans (by decide)
    refine ⟨?_, ?_, ?_⟩
    · intro short
      rcases fitting with enough | ⟨turns, covered, fits⟩
      · omega
      · have words : array.firstCapacity * 2 ^ turns < 2 ^ 64 :=
          fits.trans (by decide)
        obtain ⟨fewer, -, ends, -⟩ := doubleWord_of_fits covered words
        exact ⟨_, _, ends⟩
    · intro short fuel capacity ends
      rcases fitting with enough | ⟨turns, covered, fits⟩
      · omega
      · have words : array.firstCapacity * 2 ^ turns < 2 ^ 64 :=
          fits.trans (by decide)
        obtain ⟨fewer, least, same, -⟩ := doubleWord_of_fits covered words
        have ended := doubleWord_of_ends isWord ends
        rw [same] at ended
        have below :
            array.firstCapacity * 2 ^ fewer ≤
              array.firstCapacity * 2 ^ turns :=
          Nat.mul_le_mul_left _ (Nat.pow_le_pow_right (by decide) least)
        rw [← Option.some.inj ended]
        unfold slotBytes sizeWords
        omega
    · intro grants
      obtain ⟨count, run, counted⟩ := run_eq grants array accepted
      rw [run]
      rcases sharedArrayReserve_of_fits bound sound fitting grants with
        ⟨message, croaked⟩ | ⟨later, done, size, covers, grown, block⟩
      · rw [croaked]
        exact .inl ⟨message, rfl⟩
      · rw [done]
        refine .inr ⟨_, rfl, covers, ?_⟩
        intro slot inside
        have slots := counted later
        have before := sound.size_le
        simp only at inside ⊢
        rw [block]
        unfold slotBytes
        omega

def emptyExtent : ArrayExtent where
  size := 0
  capacity := 0
  allocated := 0

theorem isSound_emptyExtent : emptyExtent.IsSound where
  size_le := Nat.le_refl 0
  allocated_eq := rfl

theorem growsSafely_iff_nineSlots :
    emptyExtent.IsSound ∧ emptyExtent.capacity < 2 ^ 64 / 16 ∧
      (GrowthCall.resize 9).IsAccepted ∧
      (GrowsSafely emptyExtent (.resize 9) ↔
        HasFittingCapacity emptyExtent (GrowthCall.resize 9).need) :=
  ⟨isSound_emptyExtent, by decide, trivial,
    growsSafely_iff _ _ isSound_emptyExtent (by decide) trivial⟩

/-- A size above the highest power of two is doubled for without end. -/
theorem growth_is_endless :
    ¬ ∀ (array : ArrayExtent) (call : GrowthCall),
      array.IsSound → array.capacity < 2 ^ 64 / 16 → call.IsAccepted →
        GrowsSafely array call := by
  intro always
  have safe :=
    always emptyExtent (.resize (2 ^ 63 + 1)) isSound_emptyExtent
      (by decide) trivial
  obtain ⟨fuel, capacity, ends⟩ := safe.terminates (by decide +kernel)
  have decided := doubleWord_of_ends (by decide) ends
  have none :
      doubleWord 64 65 emptyExtent.firstCapacity
        (GrowthCall.resize (2 ^ 63 + 1)).need = none := by
    decide +kernel
  rw [none] at decided
  contradiction

end DeveloperDashboard.GoRoutine
