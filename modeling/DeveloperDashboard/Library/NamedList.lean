import Mathlib.Data.List.Nodup

namespace Library

/-!
# Lists of named items

A list in which items with the same name are one item: `gather` is what such a
list means, each name at the position of its first item, the later ones merged
into it.  `absorb` adds one item to a gathered list, and `foldl_absorb` says
that a run of it gathers.
-/

variable {position : Nat}

namespace NamedList

variable {Item Name : Type} [DecidableEq Name]
variable (name : Item → Option Name) (merge : Item → Item → Item)

def withName (key : Name) (items : List Item) : List Item :=
  items.filter fun item => decide (name item = some key)

def withoutName (key : Name) (items : List Item) : List Item :=
  items.filter fun item => decide (name item ≠ some key)

def gather : List Item → List Item
  | [] => []
  | item :: rest =>
    match name item with
    | none => item :: gather rest
    | some key =>
      (withName name key rest).foldl merge item ::
        gather (withoutName name key rest)
termination_by items => items.length
decreasing_by
  · exact Nat.lt_succ_self _
  · exact Nat.lt_succ_of_le (List.length_filter_le _ _)

/-- Merge an item into the one of its name, or add it. -/
def absorb (items : List Item) (item : Item) : List Item :=
  match name item with
  | none => items ++ [item]
  | some key =>
    match (items.map name).idxOf? (some key) with
    | none => items ++ [item]
    | some position => items.modify position (merge · item)

def taken (later : List Item) (item : Item) : Item :=
  match name item with
  | none => item
  | some key => (withName name key later).foldl merge item

/-- The items without a name that some item in front has. -/
def leftOver (front later : List Item) : List Item :=
  later.filter fun item =>
    decide (name item = none ∨ name item ∉ front.map name)

def Distinct (items : List Item) : Prop :=
  (items.filterMap name).Nodup

/-- Merging two items of one name gives an item of that name. -/
def KeepsName : Prop :=
  ∀ earlier later key,
    name earlier = some key → name later = some key →
      name (merge earlier later) = some key

variable {name merge}

theorem withName_append (key : Name) (front back : List Item) :
    withName name key (front ++ back) =
      withName name key front ++ withName name key back :=
  List.filter_append _ _

theorem withoutName_append (key : Name) (front back : List Item) :
    withoutName name key (front ++ back) =
      withoutName name key front ++ withoutName name key back :=
  List.filter_append _ _

theorem withName_cons_of_eq
    {item : Item} {key : Name} (named : name item = some key)
    (rest : List Item) :
    withName name key (item :: rest) = item :: withName name key rest := by
  simp [withName, named]

theorem withName_cons_of_ne
    {item : Item} {key : Name} (different : name item ≠ some key)
    (rest : List Item) :
    withName name key (item :: rest) = withName name key rest := by
  simp [withName, different]

theorem withoutName_cons_of_eq
    {item : Item} {key : Name} (named : name item = some key)
    (rest : List Item) :
    withoutName name key (item :: rest) = withoutName name key rest := by
  simp [withoutName, named]

theorem withoutName_cons_of_ne
    {item : Item} {key : Name} (different : name item ≠ some key)
    (rest : List Item) :
    withoutName name key (item :: rest) =
      item :: withoutName name key rest := by
  simp [withoutName, different]

theorem gather_of_none
    {item : Item} (unnamed : name item = none) (rest : List Item) :
    gather name merge (item :: rest) =
      item :: gather name merge rest := by
  rw [gather, unnamed]

theorem gather_of_some
    {item : Item} {key : Name} (named : name item = some key)
    (rest : List Item) :
    gather name merge (item :: rest) =
      (withName name key rest).foldl merge item ::
        gather name merge (withoutName name key rest) := by
  rw [gather, named]

theorem withName_of_absent {items : List Item} {key : Name}
    (absent : some key ∉ items.map name) :
    withName name key items = [] := by
  rw [withName, List.filter_eq_nil_iff]
  intro later isIn same
  exact absent (List.mem_map.mpr ⟨later, isIn, by simpa using same⟩)

theorem withoutName_of_absent {items : List Item} {key : Name}
    (absent : some key ∉ items.map name) :
    withoutName name key items = items := by
  rw [withoutName, List.filter_eq_self]
  intro later isIn
  rw [decide_eq_true_iff]
  intro same
  exact absent (List.mem_map.mpr ⟨later, isIn, same⟩)

omit [DecidableEq Name] in
theorem Distinct.absent {item : Item} {rest : List Item} {key : Name}
    (distinct : Distinct name (item :: rest))
    (named : name item = some key) :
    some key ∉ rest.map name := by
  unfold Distinct at distinct
  rw [List.filterMap_cons, named, List.nodup_cons] at distinct
  intro isIn
  obtain ⟨later, laterIn, same⟩ := List.mem_map.mp isIn
  exact distinct.1 (List.mem_filterMap.mpr ⟨later, laterIn, same⟩)

omit [DecidableEq Name] in
theorem Distinct.tail {item : Item} {rest : List Item}
    (distinct : Distinct name (item :: rest)) :
    Distinct name rest := by
  unfold Distinct at distinct ⊢
  rw [List.filterMap_cons] at distinct
  cases named : name item with
  | none =>
    rw [named] at distinct
    exact distinct
  | some key =>
    rw [named] at distinct
    exact (List.nodup_cons.mp distinct).2

theorem gather_of_distinct
    {items : List Item} (distinct : Distinct name items) :
    gather name merge items = items := by
  induction items with
  | nil => rw [gather]
  | cons item rest ih =>
    have gathered := ih distinct.tail
    cases named : name item with
    | none => rw [gather_of_none named, gathered]
    | some key =>
      have absent := distinct.absent named
      rw [gather_of_some named, withName_of_absent absent,
        withoutName_of_absent absent, gathered]
      rfl

theorem withName_withoutName_of_ne
    {key other : Name} (different : key ≠ other) (items : List Item) :
    withName name key (withoutName name other items) =
      withName name key items := by
  unfold withName withoutName
  rw [List.filter_filter]
  apply List.filter_congr
  intro member _
  by_cases this : name member = some key
  · simp [this, different]
  · simp [this]

theorem leftOver_cons_of_some
    {item : Item} {key : Name} (named : name item = some key)
    (rest later : List Item) :
    leftOver name (item :: rest) later =
      leftOver name rest (withoutName name key later) := by
  unfold leftOver withoutName
  rw [List.filter_filter]
  apply List.filter_congr
  intro member _
  rw [List.map_cons, named, ← Bool.decide_and, decide_eq_decide,
    List.mem_cons]
  by_cases this : name member = some key
  · simp [this]
  · simp [this]

theorem leftOver_cons_of_none {item : Item} (unnamed : name item = none)
    (rest later : List Item) :
    leftOver name (item :: rest) later = leftOver name rest later := by
  unfold leftOver
  apply List.filter_congr
  intro member _
  rw [List.map_cons, unnamed, decide_eq_decide, List.mem_cons]
  by_cases this : name member = none
  · simp [this]
  · simp [this]

theorem leftOver_congr {front others later : List Item}
    (same : ∀ item ∈ later, ∀ key, name item = some key →
      (some key ∈ front.map name ↔ some key ∈ others.map name)) :
    leftOver name front later = leftOver name others later := by
  apply List.filter_congr
  intro item isIn
  rw [decide_eq_decide]
  cases named : name item with
  | none => simp
  | some key => simp only [same item isIn key named]

theorem gather_append_of_distinct
    {front : List Item} (distinct : Distinct name front)
    (later : List Item) :
    gather name merge (front ++ later) =
      front.map (taken name merge later) ++
        gather name merge (leftOver name front later) := by
  induction front generalizing later with
  | nil =>
    have everything : leftOver name [] later = later := by
      simp [leftOver]
    rw [everything]
    rfl
  | cons item rest ih =>
    cases named : name item with
    | none =>
      have unchanged : taken name merge later item = item := by
        rw [taken, named]
      rw [List.cons_append, gather_of_none named, ih distinct.tail,
        leftOver_cons_of_none named, List.map_cons, unchanged]
      rfl
    | some key =>
      have absent := distinct.absent named
      have sameRest :
          rest.map (taken name merge (withoutName name key later)) =
            rest.map (taken name merge later) := by
        apply List.map_congr_left
        intro other isIn
        unfold taken
        cases otherNamed : name other with
        | none => rfl
        | some otherKey =>
          have different : otherKey ≠ key := by
            rintro rfl
            exact absent (List.mem_map.mpr ⟨other, isIn, otherNamed⟩)
          dsimp only
          rw [withName_withoutName_of_ne different]
      have own :
          taken name merge later item =
            (withName name key later).foldl merge item := by
        rw [taken, named]
      rw [List.cons_append, gather_of_some named, withName_append,
        withoutName_append, withName_of_absent absent,
        withoutName_of_absent absent, List.nil_append,
        ih distinct.tail,
        leftOver_cons_of_some named, sameRest, List.map_cons, own]
      rfl

theorem position_tail {first : Item} {others : List Item} {key : Name}
    (different : name first ≠ some key)
    (found :
      ((first :: others).map name).idxOf? (some key) = some position) :
    ∃ before, (others.map name).idxOf? (some key) = some before ∧
      before + 1 = position := by
  have unequal : (name first == some key) = false := by
    simpa using different
  rw [List.map_cons, List.idxOf?_cons, unequal] at found
  exact Option.map_eq_some_iff.mp found

theorem map_name_modify (keeps : KeepsName name merge) {items : List Item}
    {item : Item} {key : Name} (named : name item = some key)
    (found : (items.map name).idxOf? (some key) = some position) :
    (items.modify position (merge · item)).map name = items.map name := by
  induction items generalizing position with
  | nil => simp at found
  | cons first others ih =>
    by_cases same : name first = some key
    · obtain rfl : 0 = position := by
        simpa [List.idxOf?_cons, same] using found
      have merged := keeps first item key same named
      rw [List.modify_zero_cons, List.map_cons, List.map_cons, merged, same]
    · obtain ⟨before, foundLater, rfl⟩ := position_tail same found
      rw [List.modify_succ_cons, List.map_cons, List.map_cons, ih foundLater]

theorem gather_absorbed (keeps : KeepsName name merge)
    {items : List Item} (distinct : Distinct name items)
    {item : Item} {key : Name} (named : name item = some key)
    (found : (items.map name).idxOf? (some key) = some position)
    (rest : List Item) :
    gather name merge (items.modify position (merge · item) ++ rest) =
      gather name merge (items ++ item :: rest) := by
  induction items generalizing position rest with
  | nil => simp at found
  | cons first others ih =>
    by_cases same : name first = some key
    · obtain rfl : 0 = position := by
        simpa [List.idxOf?_cons, same] using found
      have absent := distinct.absent same
      have merged := keeps first item key same named
      rw [List.modify_zero_cons, List.cons_append, List.cons_append,
        gather_of_some merged, gather_of_some same]
      rw [withName_append, withName_append, withoutName_append,
        withoutName_append, withName_of_absent absent,
        withName_cons_of_eq named, withoutName_cons_of_eq named]
      rfl
    · obtain ⟨before, foundLater, rfl⟩ := position_tail same found
      have sameNames := map_name_modify keeps named foundLater
      rw [List.modify_succ_cons, List.cons_append, List.cons_append]
      cases firstNamed : name first with
      | none =>
        rw [gather_of_none firstNamed, gather_of_none firstNamed,
          ih distinct.tail foundLater rest]
      | some other =>
        have different : name item ≠ some other := by
          rw [named]
          rintro ⟨⟩
          exact same firstNamed
        have absent := distinct.absent firstNamed
        have absentModified :
            some other ∉
              (others.modify before (merge · item)).map name := by
          rw [sameNames]
          exact absent
        rw [gather_of_some firstNamed, gather_of_some firstNamed,
          withName_append, withName_append, withoutName_append,
          withoutName_append, withName_of_absent absent,
          withName_of_absent absentModified,
          withoutName_of_absent absent,
          withoutName_of_absent absentModified,
          withName_cons_of_ne different,
          withoutName_cons_of_ne different,
          ih distinct.tail foundLater]

theorem absorb_of_unnamed
    (items : List Item) {item : Item} (unnamed : name item = none) :
    absorb name merge items item = items ++ [item] := by
  simp [absorb, unnamed]

theorem absorb_of_absent {items : List Item} {item : Item} {key : Name}
    (named : name item = some key)
    (absent : (items.map name).idxOf? (some key) = none) :
    absorb name merge items item = items ++ [item] := by
  simp only [absorb, named, absent]

theorem absorb_of_found {items : List Item} {item : Item} {key : Name}
    (named : name item = some key)
    (found : (items.map name).idxOf? (some key) = some position) :
    absorb name merge items item =
      items.modify position (merge · item) := by
  simp only [absorb, named, found]

omit [DecidableEq Name] in
theorem filterMap_eq_filterMap_map (items : List Item) :
    items.filterMap name = (items.map name).filterMap id := by
  rw [List.filterMap_map]
  rfl

section

variable (keeps : KeepsName name merge)

include keeps

theorem distinct_absorb
    {items : List Item} (distinct : Distinct name items) (item : Item) :
    Distinct name (absorb name merge items item) := by
  cases named : name item with
  | none =>
    have added : (items ++ [item]).filterMap name =
        items.filterMap name := by
      simp [List.filterMap_append, named]
    rw [absorb_of_unnamed items named, Distinct, added]
    exact distinct
  | some key =>
    cases found : (items.map name).idxOf? (some key) with
    | none =>
      have absent : some key ∉ items.map name :=
        List.idxOf?_eq_none_iff.mp found
      have fresh : key ∉ items.filterMap name := by
        intro isIn
        obtain ⟨earlier, earlierIn, same⟩ := List.mem_filterMap.mp isIn
        exact absent (List.mem_map.mpr ⟨earlier, earlierIn, same⟩)
      rw [absorb_of_absent named found, Distinct,
        List.filterMap_append, List.nodup_append]
      refine ⟨distinct, by simp [named], ?_⟩
      rintro old oldIn new newIn rfl
      obtain rfl : old = key := by simpa [named] using newIn
      exact fresh oldIn
    | some position =>
      rw [absorb_of_found named found, Distinct,
        filterMap_eq_filterMap_map, map_name_modify keeps named found,
        ← filterMap_eq_filterMap_map]
      exact distinct

theorem gather_absorb
    {items : List Item} (distinct : Distinct name items)
    (item : Item) (rest : List Item) :
    gather name merge (absorb name merge items item ++ rest) =
      gather name merge (items ++ item :: rest) := by
  cases named : name item with
  | none =>
    rw [absorb_of_unnamed items named, List.append_assoc,
      List.singleton_append]
  | some key =>
    cases found : (items.map name).idxOf? (some key) with
    | none =>
      rw [absorb_of_absent named found, List.append_assoc,
        List.singleton_append]
    | some position =>
      rw [absorb_of_found named found]
      exact gather_absorbed keeps distinct named found rest

theorem foldl_absorb (later : List Item)
    {items : List Item} (distinct : Distinct name items) :
    later.foldl (absorb name merge) items =
        gather name merge (items ++ later) ∧
      Distinct name (later.foldl (absorb name merge) items) := by
  induction later generalizing items with
  | nil =>
    rw [List.append_nil, gather_of_distinct distinct]
    exact ⟨rfl, distinct⟩
  | cons item rest ih =>
    have next := ih (distinct_absorb keeps distinct item)
    rw [gather_absorb keeps distinct] at next
    exact next

theorem distinct_gather (items : List Item) :
    Distinct name (gather name merge items) := by
  have empty : Distinct name ([] : List Item) := by
    rw [Distinct, List.filterMap_nil]
    exact List.nodup_nil
  obtain ⟨gathered, distinct⟩ := foldl_absorb keeps items empty
  rw [List.nil_append] at gathered
  rw [← gathered]
  exact distinct

theorem gather_gather_append (items later : List Item) :
    gather name merge (gather name merge items ++ later) =
      gather name merge (items ++ later) := by
  have empty : Distinct name ([] : List Item) := by
    rw [Distinct, List.filterMap_nil]
    exact List.nodup_nil
  have first := (foldl_absorb keeps items empty).1
  have whole := (foldl_absorb keeps (items ++ later) empty).1
  have second :=
    (foldl_absorb keeps later (distinct_gather keeps items)).1
  rw [List.nil_append] at first whole
  rw [← second, ← whole, List.foldl_append, first]

theorem gather_gather (items : List Item) :
    gather name merge (gather name merge items) =
      gather name merge items :=
  gather_of_distinct (distinct_gather keeps items)

end

theorem foldl_mem_gather
    {items : List Item} {key : Name} {first : Item} {rest : List Item}
    (selected : withName name key items = first :: rest) :
    rest.foldl merge first ∈ gather name merge items := by
  induction items using gather.induct name with
  | case1 => cases selected
  | case2 item later unnamed ih =>
    have different : name item ≠ some key := by
      rw [unnamed]
      rintro ⟨⟩
    rw [withName_cons_of_ne different] at selected
    rw [gather_of_none unnamed]
    exact List.mem_cons_of_mem _ (ih selected)
  | case3 item later other named ih =>
    rw [gather_of_some named]
    by_cases same : other = key
    · subst same
      rw [withName_cons_of_eq named] at selected
      obtain ⟨rfl, rfl⟩ := List.cons.inj selected
      exact List.mem_cons_self
    · have different : name item ≠ some key := by
        simpa [named] using same
      rw [withName_cons_of_ne different] at selected
      refine List.mem_cons_of_mem _ (ih ?_)
      rw [← selected]
      unfold withName withoutName
      rw [List.filter_filter]
      apply List.filter_congr
      intro member _
      by_cases this : name member = some key
      · simp [this, Ne.symm same]
      · simp [this]

end NamedList

end Library
