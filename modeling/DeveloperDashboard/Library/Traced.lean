namespace Library

/-!
# Computations that leave a trace

A computation emits events and then returns or dies; a sequence emits the
events of its second part only when the first one returned.  `Emits` says that
all events satisfy a predicate; its rules follow the ways to put computations
together.
-/

structure Traced (Event Error Value : Type) where
  events : List Event
  result : Except Error Value

namespace Traced

variable {Event Error Value Result Item : Type}

/-- Run one computation and then the next, unless the first one dies. -/
def andThen (first : Traced Event Error Value)
    (rest : Value → Traced Event Error Result) :
    Traced Event Error Result :=
  match first.result with
  | .ok value =>
    ⟨first.events ++ (rest value).events, (rest value).result⟩
  | .error error => ⟨first.events, .error error⟩

instance : Monad (Traced Event Error) where
  pure value := ⟨[], .ok value⟩
  bind := andThen

def emit (event : Event) : Traced Event Error Unit :=
  ⟨[event], .ok ()⟩

def die (error : Error) : Traced Event Error Value :=
  ⟨[], .error error⟩

def orDie (value : Option Value) (error : Error) :
    Traced Event Error Value :=
  match value with
  | some value => pure value
  | none => die error

/-- Whether all events of a computation satisfy a predicate. -/
def Emits (allowed : Event → Prop)
    (computation : Traced Event Error Value) : Prop :=
  ∀ event ∈ computation.events, allowed event

variable {allowed : Event → Prop}

@[simp] theorem emits_pure (value : Value) :
    (pure value : Traced Event Error Value).Emits allowed :=
  fun _ member => nomatch member

@[simp] theorem emits_emit (event : Event) :
    (emit event : Traced Event Error Unit).Emits allowed ↔
      allowed event :=
  List.forall_mem_singleton

@[simp] theorem emits_die (error : Error) :
    (die error : Traced Event Error Value).Emits allowed :=
  fun _ member => nomatch member

@[simp] theorem emits_orDie (value : Option Value) (error : Error) :
    (orDie value error : Traced Event Error Value).Emits allowed := by
  cases value with
  | none => exact emits_die error
  | some value => exact emits_pure value

@[simp] theorem result_pure_eq_ok (value result : Value) :
    (pure value : Traced Event Error Value).result = .ok result ↔
      value = result :=
  Except.ok.injEq value result ▸ Iff.rfl

@[simp] theorem result_emit (event : Event) :
    (emit event : Traced Event Error Unit).result = .ok () :=
  rfl

@[simp] theorem result_orDie_eq_ok
    (value : Option Value) (error : Error) (result : Value) :
    (orDie value error : Traced Event Error Value).result = .ok result ↔
      value = some result := by
  cases value with
  | none => exact iff_of_false nofun nofun
  | some value =>
    rw [Option.some.injEq]
    exact result_pure_eq_ok value result

theorem emits_bind {first : Traced Event Error Value}
    {rest : Value → Traced Event Error Result} :
    (first >>= rest).Emits allowed ↔
      first.Emits allowed ∧
        ∀ value, first.result = .ok value →
          (rest value).Emits allowed := by
  change (andThen first rest).Emits allowed ↔ _
  unfold andThen Emits
  cases first.result with
  | ok value => simp [or_imp, forall_and]
  | error error => simp

theorem result_bind_eq_ok {first : Traced Event Error Value}
    {rest : Value → Traced Event Error Result} {result : Result} :
    (first >>= rest).result = .ok result ↔
      ∃ value, first.result = .ok value ∧
        (rest value).result = .ok result := by
  change (andThen first rest).result = _ ↔ _
  unfold andThen
  cases first.result with
  | ok value => simp
  | error error => simp

theorem result_forM_eq_ok
    {body : Item → Traced Event Error PUnit} (items : List Item) :
    (forM items body).result = .ok ⟨⟩ ↔
      ∀ item ∈ items, (body item).result = .ok ⟨⟩ := by
  induction items with
  | nil => exact iff_of_true rfl (by simp)
  | cons item rest ih =>
    rw [List.forM_cons, result_bind_eq_ok, List.forall_mem_cons, ← ih]
    constructor
    · rintro ⟨⟨⟩, first, others⟩
      exact ⟨first, others⟩
    · rintro ⟨first, others⟩
      exact ⟨⟨⟩, first, others⟩

/--
Where a computation that dies emits nothing, a computation for each item emits
what those before the first that dies emit.
-/
theorem emits_forM
    {body : Item → Traced Event Error PUnit} {returns : Item → Bool}
    (result :
      ∀ item, (body item).result = .ok ⟨⟩ ↔ returns item = true)
    (silent : ∀ item, returns item = false → (body item).events = [])
    (items : List Item) :
    (forM items body).Emits allowed ↔
      ∀ item ∈ items.takeWhile returns, (body item).Emits allowed := by
  induction items with
  | nil => exact iff_of_true (emits_pure _) (by simp)
  | cons item rest ih =>
    rw [List.forM_cons, emits_bind, List.takeWhile_cons]
    cases returned : returns item with
    | true =>
      rw [if_pos rfl, List.forall_mem_cons, ← ih]
      exact and_congr_right fun _ =>
        ⟨fun later => later ⟨⟩ ((result item).mpr returned),
          fun later _ _ => later⟩
    | false =>
      rw [if_neg Bool.false_ne_true]
      refine iff_of_true ⟨?_, ?_⟩ (by simp)
      · intro event member
        rw [silent item returned] at member
        exact nomatch member
      · intro value ended
        rw [(result item).mp ended] at returned
        contradiction

end Traced

end Library
