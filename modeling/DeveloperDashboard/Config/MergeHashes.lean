import DeveloperDashboard.Config.JsonValue
import DeveloperDashboard.Library.NamedList

namespace DeveloperDashboard.Config

open Library

/-!
# Merging configuration hashes

`_merge_hashes` and the two functions it calls.  They call each other on what
lies one reference deeper, so the merge is first defined up to a depth and then
at the depth of its arguments; `mergeHashes_eq` is the recursion of the source.
-/

/-- The key that names the members of an array that is a logical set. -/
def namedIdentity (key : String) : Option String :=
  if key = "collectors" then some "name"
  else if key = "providers" then some "id"
  else if key = "indicators" then some "name"
  else none

section

variable (mergeInner : ConfigHash → ConfigHash → ConfigHash)

/-- `_merge_named_hash_item`. -/
def mergeNamedHashItem (left right : JsonValue) : JsonValue :=
  match left, right with
  | .hash leftEntries, .hash rightEntries =>
    .hash (mergeInner leftEntries rightEntries)
  | _, _ => right

/-- The variables `@merged` and `%positions` of `_merge_named_hash_array`. -/
structure NamedArray where
  merged : List JsonValue
  positions : Entries String Nat

/-- One round of the loop of `_merge_named_hash_array`. -/
def mergeNamedRound (identityKey : String) (state : NamedArray)
    (item : JsonValue) :
    NamedArray :=
  match item.identity identityKey with
  | none => { state with merged := state.merged ++ [item] }
  | some identity =>
    match state.positions.lookup identity with
    | some position =>
      { state with
        merged :=
          state.merged.modify position
            (mergeNamedHashItem mergeInner · item) }
    | none =>
      { merged := state.merged ++ [item]
        positions :=
          state.positions.store identity state.merged.length }

/-- `_merge_named_hash_array`. -/
def mergeNamedHashArray (identityKey : String)
    (left right : List JsonValue) :
    List JsonValue :=
  ((left ++ right).foldl (mergeNamedRound mergeInner identityKey)
    { merged := [], positions := [] }).merged

/-- What `_merge_hashes` stores for a key of the right hash. -/
def mergeField (key : String) (previous : Option JsonValue)
    (value : JsonValue) :
    JsonValue :=
  match previous, value with
  | some (.hash leftEntries), .hash rightEntries =>
    .hash (mergeInner leftEntries rightEntries)
  | some (.array leftItems), .array rightItems =>
    match namedIdentity key with
    | some identityKey =>
      .array
        (mergeNamedHashArray mergeInner identityKey leftItems rightItems)
    | none => value
  | _, _ => value

/-- The last statements of `_merge_hashes`, for one key. -/
def collapseField (key : String) (value : JsonValue) : JsonValue :=
  match namedIdentity key, value with
  | some identityKey, .array items =>
    .array (mergeNamedHashArray mergeInner identityKey [] items)
  | _, _ => value

/-- The body of `_merge_hashes`. -/
def mergeHashesWith (left right : ConfigHash) : ConfigHash :=
  (Entries.overlay (mergeField mergeInner) left right).mapValues
    (collapseField mergeInner)

end

section

variable {mergeInner : ConfigHash → ConfigHash → ConfigHash}
variable {identityKey : String} {state : NamedArray} {item : JsonValue}

theorem mergeNamedRound_of_none
    (unnamed : item.identity identityKey = none) :
    mergeNamedRound mergeInner identityKey state item =
      { state with merged := state.merged ++ [item] } := by
  simp only [mergeNamedRound, unnamed]

theorem mergeNamedRound_of_new {identity : String}
    (named : item.identity identityKey = some identity)
    (absent : state.positions.lookup identity = none) :
    mergeNamedRound mergeInner identityKey state item =
      { merged := state.merged ++ [item]
        positions :=
          state.positions.store identity state.merged.length } := by
  simp only [mergeNamedRound, named, absent]

theorem mergeNamedRound_of_known {identity : String} {position : Nat}
    (named : item.identity identityKey = some identity)
    (found : state.positions.lookup identity = some position) :
    mergeNamedRound mergeInner identityKey state item =
      { state with
        merged :=
          state.merged.modify position
            (mergeNamedHashItem mergeInner · item) } := by
  simp only [mergeNamedRound, named, found]

end

/-- `_merge_hashes` on hashes of some depth at most. -/
def mergeHashesTo : Nat → ConfigHash → ConfigHash → ConfigHash
  | 0 => mergeHashesWith fun _ right => right
  | depth + 1 => mergeHashesWith (mergeHashesTo depth)

/-- `_merge_hashes`. -/
def mergeHashes (left right : ConfigHash) : ConfigHash :=
  mergeHashesTo (max (entriesDepth left) (entriesDepth right)) left right

/-- Two merges that agree below a depth, and deepen nothing there. -/
structure Agree
    (depth : Nat)
    (first second : ConfigHash → ConfigHash → ConfigHash) : Prop where
  same : ∀ left right,
    entriesDepth left < depth → entriesDepth right < depth →
      first left right = second left right
  within : ∀ bound left right, bound < depth →
    entriesDepth left ≤ bound → entriesDepth right ≤ bound →
      entriesDepth (first left right) ≤ bound

variable {bound : Nat}

section

variable {depth : Nat}
variable {first second : ConfigHash → ConfigHash → ConfigHash}

def ItemsAgree (depth : Nat)
    (first second : ConfigHash → ConfigHash → ConfigHash) : Prop :=
  ∀ left right : JsonValue,
    left.depth ≤ depth → right.depth ≤ depth →
      mergeNamedHashItem first left right =
          mergeNamedHashItem second left right ∧
        (mergeNamedHashItem first left right).depth ≤ depth

theorem Agree.items (agree : Agree depth first second)
    (inside : bound ≤ depth) :
    ItemsAgree bound first second := by
  intro left right leftWithin rightWithin
  unfold mergeNamedHashItem
  split
  · next leftEntries rightEntries =>
      simp only [JsonValue.depth] at *
      have below (entries : ConfigHash)
          (within : entriesDepth entries + 1 ≤ bound) :
          entriesDepth entries < depth :=
        Nat.lt_of_lt_of_le within inside
      rw [← agree.same _ _ (below _ leftWithin) (below _ rightWithin)]
      refine ⟨rfl, ?_⟩
      have deepened :=
        agree.within (bound - 1) leftEntries rightEntries
          (by omega) (by omega) (by omega)
      omega
  · exact ⟨rfl, rightWithin⟩

theorem mergeNamedRound_agree (agree : ItemsAgree depth first second)
    (identityKey : String) {state : NamedArray}
    (stateWithin : itemsDepth state.merged ≤ depth) {item : JsonValue}
    (itemWithin : item.depth ≤ depth) :
    mergeNamedRound first identityKey state item =
        mergeNamedRound second identityKey state item ∧
      itemsDepth (mergeNamedRound first identityKey state item).merged ≤
        depth := by
  rw [itemsDepth_le_iff] at stateWithin
  have appended : itemsDepth (state.merged ++ [item]) ≤ depth := by
    rw [itemsDepth_le_iff]
    intro member isIn
    rcases List.mem_append.mp isIn with old | new
    · exact stateWithin member old
    · rwa [List.mem_singleton.mp new]
  cases named : item.identity identityKey with
  | none =>
    rw [mergeNamedRound_of_none named, mergeNamedRound_of_none named]
    exact ⟨rfl, appended⟩
  | some identity =>
    cases found : state.positions.lookup identity with
    | none =>
      rw [mergeNamedRound_of_new named found,
        mergeNamedRound_of_new named found]
      exact ⟨rfl, appended⟩
    | some position =>
      have sameItem (member : JsonValue) (isIn : member ∈ state.merged) :=
        agree member item (stateWithin member isIn) itemWithin
      have sameModified :
          state.merged.modify position
              (mergeNamedHashItem first · item) =
            state.merged.modify position
              (mergeNamedHashItem second · item) := by
        apply List.ext_getElem?
        intro index
        rw [List.getElem?_modify, List.getElem?_modify]
        cases there : state.merged[index]? with
        | none => rfl
        | some member =>
          simp only [Option.map_eq_map, Option.map_some,
            (sameItem member (List.mem_of_getElem? there)).1]
      rw [mergeNamedRound_of_known named found,
        mergeNamedRound_of_known named found, sameModified]
      refine ⟨rfl, ?_⟩
      rw [← sameModified, itemsDepth_le_iff]
      intro member isIn
      obtain ⟨index, there⟩ := List.getElem?_of_mem isIn
      rw [List.getElem?_modify] at there
      obtain ⟨old, oldThere, rfl⟩ := Option.map_eq_some_iff.mp there
      have oldIn := List.mem_of_getElem? oldThere
      by_cases here : position = index
      · simpa [here] using (sameItem old oldIn).2
      · simpa [here] using stateWithin old oldIn

theorem mergeNamedRounds_agree (agree : ItemsAgree depth first second)
    (identityKey : String) {items : List JsonValue}
    (itemsWithin : itemsDepth items ≤ depth) {state : NamedArray}
    (stateWithin : itemsDepth state.merged ≤ depth) :
    items.foldl (mergeNamedRound first identityKey) state =
        items.foldl (mergeNamedRound second identityKey) state ∧
      itemsDepth
          (items.foldl (mergeNamedRound first identityKey) state).merged ≤
        depth := by
  induction items generalizing state with
  | nil => exact ⟨rfl, stateWithin⟩
  | cons item rest ih =>
    rw [itemsDepth, Nat.max_le] at itemsWithin
    obtain ⟨same, within⟩ :=
      mergeNamedRound_agree agree identityKey stateWithin itemsWithin.1
    rw [List.foldl_cons, List.foldl_cons, ← same]
    exact ih itemsWithin.2 within

theorem mergeNamedHashArray_agree (agree : ItemsAgree depth first second)
    (identityKey : String) {left right : List JsonValue}
    (leftWithin : itemsDepth left ≤ depth)
    (rightWithin : itemsDepth right ≤ depth) :
    mergeNamedHashArray first identityKey left right =
        mergeNamedHashArray second identityKey left right ∧
      itemsDepth (mergeNamedHashArray first identityKey left right) ≤
        depth := by
  have within : itemsDepth (left ++ right) ≤ depth := by
    rw [itemsDepth_le_iff] at *
    intro item isIn
    rcases List.mem_append.mp isIn with old | new
    · exact leftWithin item old
    · exact rightWithin item new
  obtain ⟨same, bounded⟩ :=
    @mergeNamedRounds_agree depth first second agree identityKey _ within
      { merged := [], positions := [] } (Nat.zero_le _)
  exact ⟨congrArg NamedArray.merged same, bounded⟩

theorem mergeField_agree (agree : Agree depth first second)
    (inside : bound ≤ depth) (key : String)
    {previous : Option JsonValue} {value : JsonValue}
    (previousWithin : ∀ old, previous = some old → old.depth ≤ bound)
    (valueWithin : value.depth ≤ bound) :
    mergeField first key previous value =
        mergeField second key previous value ∧
      (mergeField first key previous value).depth ≤ bound := by
  unfold mergeField
  split
  · next leftEntries rightEntries =>
      exact agree.items inside (.hash leftEntries) (.hash rightEntries)
        (previousWithin _ rfl) valueWithin
  · next leftItems rightItems =>
      cases namedIdentity key with
      | none => exact ⟨rfl, valueWithin⟩
      | some identityKey =>
        have leftWithin := previousWithin _ rfl
        cases bound with
        | zero => simp [JsonValue.depth] at valueWithin
        | succ bound =>
          simp only [JsonValue.depth, Nat.add_le_add_iff_right] at *
          obtain ⟨same, within⟩ :=
            mergeNamedHashArray_agree
              (agree.items (Nat.le_of_succ_le inside))
              identityKey leftWithin valueWithin
          exact ⟨congrArg JsonValue.array same, within⟩
  · exact ⟨rfl, valueWithin⟩

/-- Merges that agree do so on the last statements. -/
theorem collapseField_agree (agree : Agree depth first second)
    (inside : bound ≤ depth) (key : String) {value : JsonValue}
    (valueWithin : value.depth ≤ bound) :
    collapseField first key value = collapseField second key value ∧
      (collapseField first key value).depth ≤ bound := by
  unfold collapseField
  split
  · next identityKey items _ =>
      cases bound with
      | zero => simp [JsonValue.depth] at valueWithin
      | succ bound =>
        simp only [JsonValue.depth, Nat.add_le_add_iff_right] at *
        have nothing : itemsDepth [] ≤ bound := Nat.zero_le _
        obtain ⟨same, within⟩ :=
          mergeNamedHashArray_agree
            (agree.items (Nat.le_of_succ_le inside))
            identityKey nothing valueWithin
        exact ⟨congrArg JsonValue.array same, within⟩
  · exact ⟨rfl, valueWithin⟩

theorem mergeHashesWith_agree (agree : Agree depth first second) :
    Agree (depth + 1) (mergeHashesWith first) (mergeHashesWith second) := by
  have fields {bound : Nat} (inside : bound ≤ depth)
      {left right : ConfigHash}
      (leftWithin : entriesDepth left ≤ bound)
      (rightWithin : entriesDepth right ≤ bound)
      (key : String) (previous : Option JsonValue) (value : JsonValue)
      (previousIn : ∀ old, previous = some old → (key, old) ∈ left)
      (valueIn : (key, value) ∈ right) :
      mergeField first key previous value =
          mergeField second key previous value ∧
        (mergeField first key previous value).depth ≤ bound := by
    rw [entriesDepth_le_iff] at leftWithin rightWithin
    exact mergeField_agree agree inside key
      (fun old isOld => leftWithin _ (previousIn old isOld))
      (rightWithin _ valueIn)
  have overlaid {bound : Nat} (inside : bound ≤ depth)
      {left right : ConfigHash}
      (leftWithin : entriesDepth left ≤ bound)
      (rightWithin : entriesDepth right ≤ bound) :
      ∀ entry ∈ Entries.overlay (mergeField first) left right,
        entry.2.depth ≤ bound := by
    intro entry isIn
    rcases Entries.mem_overlay isIn with
      old | ⟨previous, value, previousIn, valueIn, isMerged⟩
    · exact (entriesDepth_le_iff left bound).mp leftWithin entry old
    · rw [isMerged]
      exact (fields inside leftWithin rightWithin entry.1 previous value
        previousIn valueIn).2
  constructor
  · intro left right leftWithin rightWithin
    have leftInside := Nat.le_of_lt_succ leftWithin
    have rightInside := Nat.le_of_lt_succ rightWithin
    have sameOverlay :
        Entries.overlay (mergeField first) left right =
          Entries.overlay (mergeField second) left right :=
      Entries.overlay_congr fun key previous value previousIn valueIn =>
        (fields (Nat.le_refl _) leftInside rightInside key previous value
          previousIn valueIn).1
    unfold mergeHashesWith
    rw [← sameOverlay]
    exact Entries.mapValues_congr fun entry isIn =>
      (collapseField_agree agree (Nat.le_refl _) entry.1
        (overlaid (Nat.le_refl _) leftInside rightInside entry isIn)).1
  · intro bound left right inside leftWithin rightWithin
    have below := Nat.le_of_lt_succ inside
    unfold mergeHashesWith
    rw [entriesDepth_le_iff]
    intro entry isIn
    obtain ⟨old, oldIn, rfl⟩ := List.mem_map.mp isIn
    exact (collapseField_agree agree below old.1
      (overlaid below leftWithin rightWithin old oldIn)).2

theorem agree_zero : Agree 0 first second where
  same _ _ leftWithin := absurd leftWithin (Nat.not_lt_zero _)
  within _ _ _ inside := absurd inside (Nat.not_lt_zero _)

theorem mergeHashesTo_agree (depth more : Nat) :
    Agree (depth + 1) (mergeHashesTo depth)
      (mergeHashesTo (depth + more)) := by
  induction depth generalizing more with
  | zero =>
    cases more with
    | zero => exact mergeHashesWith_agree agree_zero
    | succ more =>
      rw [Nat.zero_add]
      exact mergeHashesWith_agree agree_zero
  | succ depth ih =>
    rw [Nat.add_right_comm depth 1 more]
    exact mergeHashesWith_agree (ih more)

theorem mergeHashes_eq_to {depth : Nat} {left right : ConfigHash}
    (leftWithin : entriesDepth left ≤ depth)
    (rightWithin : entriesDepth right ≤ depth) :
    mergeHashes left right = mergeHashesTo depth left right := by
  have covered :
      max (entriesDepth left) (entriesDepth right) ≤ depth :=
    Nat.max_le.mpr ⟨leftWithin, rightWithin⟩
  obtain ⟨more, rfl⟩ := Nat.exists_eq_add_of_le covered
  exact (mergeHashesTo_agree _ more).same left right
    (Nat.lt_succ_of_le (Nat.le_max_left _ _))
    (Nat.lt_succ_of_le (Nat.le_max_right _ _))

theorem mergeHashes_agree (depth : Nat) :
    Agree (depth + 1) mergeHashes (mergeHashesTo depth) where
  same left right leftWithin rightWithin :=
    mergeHashes_eq_to (Nat.le_of_lt_succ leftWithin)
      (Nat.le_of_lt_succ rightWithin)
  within bound left right inside leftWithin rightWithin := by
    rw [mergeHashes_eq_to leftWithin rightWithin]
    exact (mergeHashesTo_agree bound 0).within bound left right
      (Nat.lt_succ_self _) leftWithin rightWithin

end

theorem mergeHashes_eq (left right : ConfigHash) :
    mergeHashes left right = mergeHashesWith mergeHashes left right := by
  have agree :=
    mergeHashesWith_agree
      (mergeHashes_agree
        (max (entriesDepth left) (entriesDepth right)))
  rw [agree.same left right (by omega) (by omega)]
  exact mergeHashes_eq_to
    (Nat.le_succ_of_le (Nat.le_max_left _ _))
    (Nat.le_succ_of_le (Nat.le_max_right _ _))

/-!
# Named arrays in merged hashes

The loop of `_merge_named_hash_array` gathers its items by identity, so
collapsing an array again changes nothing, and neither does collapsing a hash
before it is merged.
-/

/-- Members of a named array with equal identities merged into the first. -/
def gathered (identityKey : String) (items : List JsonValue) :
    List JsonValue :=
  NamedList.gather (JsonValue.identity identityKey)
    (mergeNamedHashItem mergeHashes) items

/-- The last statements of `_merge_hashes`, on a whole hash. -/
def collapsed (hash : ConfigHash) : ConfigHash :=
  hash.mapValues (collapseField mergeHashes)

variable {value : JsonValue}

theorem mergeField_of_scalar
    {mergeInner : ConfigHash → ConfigHash → ConfigHash}
    (scalar : value.IsScalar) (key : String) (previous : Option JsonValue) :
    mergeField mergeInner key previous value = value := by
  unfold mergeField
  split
  · cases scalar
  · cases scalar
  · rfl

theorem collapseField_of_scalar
    {mergeInner : ConfigHash → ConfigHash → ConfigHash}
    (scalar : value.IsScalar) (key : String) :
    collapseField mergeInner key value = value := by
  unfold collapseField
  split
  · cases scalar
  · rfl

theorem lookup_mergeHashes (left right : ConfigHash) (key : String) :
    (mergeHashes left right).lookup key =
      (((right.lookup key).map
          (mergeField mergeHashes key (left.lookup key))).or
        (left.lookup key)).map (collapseField mergeHashes key) := by
  rw [mergeHashes_eq, mergeHashesWith, Entries.lookup_mapValues,
    Entries.lookup_overlay]

theorem lookup_mergeHashes_of_scalar {left right : ConfigHash} {key : String}
    (found : right.lookup key = some value) (scalar : value.IsScalar) :
    (mergeHashes left right).lookup key = some value := by
  rw [lookup_mergeHashes, found]
  simp only [Option.map_some, Option.some_or,
    mergeField_of_scalar scalar, collapseField_of_scalar scalar]

theorem keepsIdentity (identityKey : String) :
    NamedList.KeepsName (JsonValue.identity identityKey)
      (mergeNamedHashItem mergeHashes) := by
  intro earlier later identity earlierNamed laterNamed
  obtain ⟨left, _, rfl, -, -⟩ :=
    JsonValue.eq_hash_of_identity earlierNamed
  obtain ⟨right, value, rfl, found, text⟩ :=
    JsonValue.eq_hash_of_identity laterNamed
  have merged :
      (mergeHashes left right).lookup identityKey = some value :=
    lookup_mergeHashes_of_scalar found
      (JsonValue.isScalar_of_identityText text)
  change (Entries.lookup (mergeHashes left right) identityKey).bind
    JsonValue.identityText = some identity
  rw [merged, Option.bind_some, text]

/-- `%positions` holds the position of every identity. -/
def NamedArray.Indexed (identityKey : String) (state : NamedArray) : Prop :=
  ∀ identity,
    state.positions.lookup identity =
      (state.merged.map (JsonValue.identity identityKey)).idxOf?
        (some identity)

theorem idxOf?_concat (names : List (Option String))
    (name sought : Option String) :
    (names ++ [name]).idxOf? sought =
      (names.idxOf? sought).or
        (if name = sought then some names.length else none) := by
  unfold List.idxOf?
  rw [List.findIdx?_append]
  by_cases same : name = sought
  · simp [same]
  · simp [same]

theorem mergeNamedRound_absorbs {identityKey : String} {state : NamedArray}
    (indexed : state.Indexed identityKey) (item : JsonValue) :
    (mergeNamedRound mergeHashes identityKey state item).merged =
        NamedList.absorb (JsonValue.identity identityKey)
          (mergeNamedHashItem mergeHashes) state.merged item ∧
      (mergeNamedRound mergeHashes identityKey state item).Indexed
        identityKey := by
  cases named : item.identity identityKey with
  | none =>
    rw [mergeNamedRound_of_none named, NamedList.absorb_of_unnamed _ named]
    refine ⟨rfl, fun sought => ?_⟩
    rw [List.map_append, List.map_singleton, named, idxOf?_concat, ← indexed]
    simp
  | some identity =>
    cases found : state.positions.lookup identity with
    | none =>
      have absent := (indexed identity).symm.trans found
      rw [mergeNamedRound_of_new named found,
        NamedList.absorb_of_absent named absent]
      refine ⟨rfl, fun sought => ?_⟩
      rw [List.map_append, List.map_singleton, named, idxOf?_concat,
        ← indexed, List.length_map]
      by_cases same : identity = sought
      · subst same
        simp [found]
      · rw [Entries.lookup_store_of_ne _ same]
        simp [same]
    | some position =>
      have known := (indexed identity).symm.trans found
      rw [mergeNamedRound_of_known named found,
        NamedList.absorb_of_found named known]
      refine ⟨rfl, fun sought => ?_⟩
      rw [NamedList.map_name_modify (keepsIdentity identityKey) named
        known]
      exact indexed sought

theorem mergeNamedRounds_absorb
    {identityKey : String} (items : List JsonValue) {state : NamedArray}
    (indexed : state.Indexed identityKey) :
    (items.foldl (mergeNamedRound mergeHashes identityKey) state).merged =
      items.foldl
        (NamedList.absorb (JsonValue.identity identityKey)
          (mergeNamedHashItem mergeHashes)) state.merged := by
  induction items generalizing state with
  | nil => rfl
  | cons item rest ih =>
    obtain ⟨absorbed, nextIndexed⟩ :=
      mergeNamedRound_absorbs indexed item
    rw [List.foldl_cons, List.foldl_cons, ← absorbed]
    exact ih nextIndexed

theorem mergeNamedHashArray_eq
    (identityKey : String) (left right : List JsonValue) :
    mergeNamedHashArray mergeHashes identityKey left right =
      gathered identityKey (left ++ right) := by
  have indexed :
      NamedArray.Indexed identityKey { merged := [], positions := [] } :=
    fun _ => rfl
  have nothing :
      NamedList.Distinct (JsonValue.identity identityKey)
        ([] : List JsonValue) := by
    rw [NamedList.Distinct, List.filterMap_nil]
    exact List.nodup_nil
  rw [mergeNamedHashArray, mergeNamedRounds_absorb _ indexed,
    (NamedList.foldl_absorb (keepsIdentity identityKey) _ nothing).1]
  rfl

theorem collapseField_of_named
    {key identityKey : String} (named : namedIdentity key = some identityKey)
    (items : List JsonValue) :
    collapseField mergeHashes key (.array items) =
      .array (gathered identityKey items) := by
  simp only [collapseField, named, mergeNamedHashArray_eq, List.nil_append]

theorem mergeField_of_named
    {key identityKey : String} (named : namedIdentity key = some identityKey)
    (left right : List JsonValue) :
    mergeField mergeHashes key (some (.array left)) (.array right) =
      .array (gathered identityKey (left ++ right)) := by
  simp only [mergeField, named, mergeNamedHashArray_eq]

theorem gathered_gathered_append
    (identityKey : String) (items later : List JsonValue) :
    gathered identityKey (gathered identityKey items ++ later) =
      gathered identityKey (items ++ later) :=
  NamedList.gather_gather_append (keepsIdentity identityKey) items later

theorem gathered_gathered (identityKey : String) (items : List JsonValue) :
    gathered identityKey (gathered identityKey items) =
      gathered identityKey items :=
  NamedList.gather_gather (keepsIdentity identityKey) items

theorem collapseField_collapseField (key : String) (value : JsonValue) :
    collapseField mergeHashes key (collapseField mergeHashes key value) =
      collapseField mergeHashes key value := by
  cases named : namedIdentity key with
  | none => simp only [collapseField, named]
  | some identityKey =>
    cases value with
    | array items =>
      rw [collapseField_of_named named, collapseField_of_named named,
        gathered_gathered]
    | _ => simp only [collapseField, named]

/-- Collapsing a field before it is merged changes nothing. -/
theorem collapseField_mergeField
    (key : String) (previous value : JsonValue) :
    collapseField mergeHashes key
        (mergeField mergeHashes key
          (some (collapseField mergeHashes key previous)) value) =
      collapseField mergeHashes key
        (mergeField mergeHashes key (some previous) value) := by
  cases named : namedIdentity key with
  | none => simp only [collapseField, named]
  | some identityKey =>
    cases previous with
    | array left =>
      rw [collapseField_of_named named]
      cases value with
      | array right =>
        rw [mergeField_of_named named, mergeField_of_named named,
          gathered_gathered_append]
      | _ => rfl
    | _ => simp only [collapseField, named]

theorem collapsed_collapsed (hash : ConfigHash) :
    collapsed (collapsed hash) = collapsed hash := by
  unfold collapsed Entries.mapValues
  rw [List.map_map]
  apply List.map_congr_left
  rintro ⟨key, value⟩ -
  simp only [Function.comp_apply, collapseField_collapseField]

theorem mergeHashes_eq_collapsed (left right : ConfigHash) :
    mergeHashes left right =
      collapsed (Entries.overlay (mergeField mergeHashes) left right) :=
  mergeHashes_eq left right

theorem collapsed_mergeHashes (left right : ConfigHash) :
    collapsed (mergeHashes left right) = mergeHashes left right := by
  rw [mergeHashes_eq_collapsed, collapsed_collapsed]

theorem mergeHashes_nil_left (right : ConfigHash) :
    mergeHashes [] right = collapsed right := by
  rw [mergeHashes_eq_collapsed]
  congr 1
  have sameField (entry : String × JsonValue) :
      mergeField mergeHashes entry.1 none entry.2 = entry.2 := by
    cases entry.2 <;> rfl
  simp [Entries.overlay, sameField]

theorem mergeHashes_nil_right (left : ConfigHash) :
    mergeHashes left [] = collapsed left := by
  rw [mergeHashes_eq_collapsed]
  congr 1
  simp [Entries.overlay]

theorem mergeHashes_collapsed_left (left right : ConfigHash) :
    mergeHashes (collapsed left) right = mergeHashes left right := by
  rw [mergeHashes_eq_collapsed, mergeHashes_eq_collapsed]
  unfold collapsed Entries.overlay Entries.mapValues
  simp only [List.map_append, List.map_map]
  congr 1
  · apply List.map_congr_left
    rintro ⟨key, previous⟩ -
    simp only [Function.comp_apply]
    cases Entries.lookup right key with
    | none => simp only [collapseField_collapseField]
    | some value => simp only [collapseField_mergeField]
  · congr 1
    apply List.filter_congr
    rintro ⟨key, value⟩ -
    have sameKeys :=
      Entries.lookup_mapValues (collapseField mergeHashes) left key
    unfold Entries.mapValues at sameKeys
    rw [sameKeys, Option.isNone_map]

end DeveloperDashboard.Config
