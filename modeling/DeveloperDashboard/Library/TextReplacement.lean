import Mathlib.Data.List.Basic

namespace Library

/-!
# Codes that can be read from the front

A code is read from the front when no two items have codes that can begin one
text; a list of items is then determined by the codes written one after the
other.
-/

def IsPrefixCode {Item Symbol : Type}
    (valid : Item → Prop) (code : Item → List Symbol) : Prop :=
  ∀ first second, valid first → valid second →
    ∀ rest others, code first ++ rest = code second ++ others →
      first = second

/-!
# Replacing symbols of a text

Every symbol that a table has is replaced by its entry.  Replacing one symbol
after the others is the same as one pass as long as no entry has that symbol,
and a text can be replaced span by span.  What the entries stand for is restored
when they can be read from the front and all begin with a symbol that is itself
replaced.
-/

variable {Symbol : Type}

abbrev ReplacementTable (Symbol : Type) :=
  Symbol → Option (List Symbol)

def replaceEach (table : ReplacementTable Symbol) (text : List Symbol) :
    List Symbol :=
  text.flatMap fun symbol => (table symbol).getD [symbol]

namespace ReplacementTable

def none : ReplacementTable Symbol :=
  fun _ => Option.none

def extend [DecidableEq Symbol]
    (table : ReplacementTable Symbol) (symbol : Symbol)
    (entry : List Symbol) : ReplacementTable Symbol :=
  fun other => if other = symbol then some entry else table other

def single [DecidableEq Symbol] (symbol : Symbol) (entry : List Symbol) :
    ReplacementTable Symbol :=
  extend none symbol entry

theorem forall_extend
    [DecidableEq Symbol] {Holds : Symbol → List Symbol → Prop}
    {table : ReplacementTable Symbol} {symbol : Symbol}
    {entry : List Symbol} (here : Holds symbol entry)
    (rest : ∀ other text, table other = some text → Holds other text)
    (other : Symbol) (text : List Symbol)
    (found : table.extend symbol entry other = some text) :
    Holds other text := by
  unfold extend at found
  split at found
  · next same =>
      obtain rfl := Option.some.inj found
      rw [same]
      exact here
  · exact rest other text found

theorem forall_none {Holds : Symbol → List Symbol → Prop}
    (other : Symbol) (text : List Symbol)
    (found : none other = some text) : Holds other text :=
  absurd found (Option.some_ne_none text).symm

end ReplacementTable

variable {table : ReplacementTable Symbol}

@[simp] theorem replaceEach_nil : replaceEach table [] = [] :=
  rfl

@[simp] theorem replaceEach_cons (symbol : Symbol) (rest : List Symbol) :
    replaceEach table (symbol :: rest) =
      (table symbol).getD [symbol] ++ replaceEach table rest :=
  rfl

theorem replaceEach_append (left right : List Symbol) :
    replaceEach table (left ++ right) =
      replaceEach table left ++ replaceEach table right :=
  List.flatMap_append

variable {text : List Symbol}

theorem replaceEach_of_untouched
    (untouched : ∀ symbol ∈ text, table symbol = none) :
    replaceEach table text = text := by
  induction text with
  | nil => rfl
  | cons symbol rest ih =>
    rw [replaceEach_cons, untouched symbol List.mem_cons_self,
      ih fun other member =>
        untouched other (List.mem_cons_of_mem _ member)]
    rfl

theorem replaceEach_single_replaceEach
    [DecidableEq Symbol] {symbol : Symbol} {entry : List Symbol}
    (fresh : table symbol = none)
    (absent : ∀ other text, table other = some text → symbol ∉ text)
    (text : List Symbol) :
    replaceEach (.single symbol entry) (replaceEach table text) =
      replaceEach (table.extend symbol entry) text := by
  induction text with
  | nil => rfl
  | cons first rest ih =>
    rw [replaceEach_cons, replaceEach_append, ih, replaceEach_cons]
    congr 1
    by_cases same : first = symbol
    · subst same
      rw [fresh]
      simp [ReplacementTable.single, ReplacementTable.extend]
    · cases found : table first with
      | none =>
        simp [ReplacementTable.single, ReplacementTable.extend,
          ReplacementTable.none, same, found]
      | some text =>
        have extended : table.extend symbol entry first = some text := by
          rw [ReplacementTable.extend, if_neg same, found]
        rw [extended]
        refine replaceEach_of_untouched fun other member => ?_
        refine if_neg ?_
        rintro rfl
        exact absent first text found member

theorem length_replaceEach_le {factor : Nat} (positive : 1 ≤ factor)
    (bounded : ∀ symbol text, table symbol = some text →
      text.length ≤ factor)
    (text : List Symbol) :
    (replaceEach table text).length ≤ factor * text.length := by
  induction text with
  | nil => exact Nat.zero_le _
  | cons symbol rest ih =>
    have one : ((table symbol).getD [symbol]).length ≤ factor := by
      cases found : table symbol with
      | none => exact positive
      | some entry => exact bounded symbol entry found
    rw [replaceEach_cons, List.length_append, List.length_cons, Nat.mul_succ]
    omega

theorem replaceEach_of_findIdx?_eq_none
    (absent :
      (text.findIdx? fun symbol => (table symbol).isSome) = none) :
    replaceEach table text = text := by
  refine replaceEach_of_untouched fun symbol member => ?_
  have notFound := List.findIdx?_eq_none_iff.mp absent symbol member
  simpa using notFound

theorem replaceEach_of_findIdx?_eq_some {span : Nat}
    (found :
      (text.findIdx? fun symbol => (table symbol).isSome) = some span) :
    ∃ symbol entry, text[span]? = some symbol ∧
      table symbol = some entry ∧
      replaceEach table text =
        text.take span ++ entry ++
          replaceEach table (text.drop (span + 1)) := by
  obtain ⟨inside, here, before⟩ :=
    List.findIdx?_eq_some_iff_getElem.mp found
  obtain ⟨entry, entryEq⟩ := Option.isSome_iff_exists.mp here
  refine ⟨text[span], entry, List.getElem?_eq_getElem inside, entryEq, ?_⟩
  have untouched :
      replaceEach table (text.take span) = text.take span := by
    refine replaceEach_of_untouched fun symbol member => ?_
    obtain ⟨index, bound, rfl⟩ := List.mem_take_iff_getElem.mp member
    simpa using before index (by omega)
  have split :
      text = text.take span ++ text[span] :: text.drop (span + 1) := by
    rw [← List.drop_eq_getElem_cons inside, List.take_append_drop]
  conv => lhs; rw [split]
  rw [replaceEach_append, untouched, replaceEach_cons, entryEq,
    Option.getD_some, List.append_assoc]

abbrev RestoringTable (Symbol : Type) :=
  List (Symbol × List Symbol)

def entryAt [DecidableEq Symbol]
    (entries : RestoringTable Symbol) (text : List Symbol) :
    Option (Symbol × List Symbol) :=
  entries.find? fun entry => entry.2.isPrefixOf text

/-- Restore a text from the left, after some symbols that are passed over. -/
def restoreAfter [DecidableEq Symbol] (entries : RestoringTable Symbol) :
    Nat → List Symbol → List Symbol
  | _, [] => []
  | passed + 1, _ :: rest => restoreAfter entries passed rest
  | 0, symbol :: rest =>
    match entryAt entries (symbol :: rest) with
    | some entry =>
      entry.1 :: restoreAfter entries (entry.2.length - 1) rest
    | none => symbol :: restoreAfter entries 0 rest

def restoreEach [DecidableEq Symbol]
    (entries : RestoringTable Symbol) (text : List Symbol) :
    List Symbol :=
  restoreAfter entries 0 text

section Restoring

variable [DecidableEq Symbol] {entries : RestoringTable Symbol}

theorem restoreAfter_length_append (passed rest : List Symbol) :
    restoreAfter entries passed.length (passed ++ rest) =
      restoreAfter entries 0 rest := by
  induction passed with
  | nil => rfl
  | cons symbol passed ih =>
    rw [List.length_cons, List.cons_append, restoreAfter]
    exact ih

theorem entryAt_append (isCode : IsPrefixCode (· ∈ entries) Prod.snd)
    {entry : Symbol × List Symbol} (isEntry : entry ∈ entries)
    (rest : List Symbol) :
    entryAt entries (entry.2 ++ rest) = some entry := by
  cases found : entryAt entries (entry.2 ++ rest) with
  | none =>
    have missed := List.find?_eq_none.mp found entry isEntry
    exact absurd
      (List.isPrefixOf_iff_prefix.mpr (List.prefix_append _ _)) missed
  | some other =>
    have otherEntry := List.mem_of_find?_eq_some found
    have begins := List.find?_some found
    obtain ⟨others, same⟩ := List.isPrefixOf_iff_prefix.mp begins
    rw [isCode other entry otherEntry isEntry others rest same]

theorem restoreEach_replaceEach
    (isCode : IsPrefixCode (· ∈ entries) Prod.snd) {marker : Symbol}
    (marked : ∀ entry ∈ entries, entry.2.head? = some marker)
    (replaced : (table marker).isSome)
    (listed : ∀ symbol entry, table symbol = some entry →
      (symbol, entry) ∈ entries)
    (text : List Symbol) :
    restoreEach entries (replaceEach table text) = text := by
  unfold restoreEach
  induction text with
  | nil => rfl
  | cons symbol rest ih =>
    rw [replaceEach_cons]
    cases found : table symbol with
    | none =>
      have other : symbol ≠ marker := by
        rintro rfl
        rw [found] at replaced
        exact Bool.false_ne_true replaced
      have noEntry :
          entryAt entries (symbol :: replaceEach table rest) =
            none := by
        refine List.find?_eq_none.mpr fun entry isEntry begins => ?_
        obtain ⟨others, same⟩ := List.isPrefixOf_iff_prefix.mp begins
        have head := marked entry isEntry
        cases shape : entry.2 with
        | nil => simp [shape] at head
        | cons first later =>
          rw [shape] at head same
          rw [List.cons_append] at same
          have first := (List.cons.inj same).1
          rw [List.head?_cons, first] at head
          exact other (Option.some.inj head)
      rw [Option.getD_none, List.singleton_append, restoreAfter, noEntry]
      exact congrArg _ ih
    | some entry =>
      have isEntry := listed symbol entry found
      have found := entryAt_append isCode isEntry
        (replaceEach table rest)
      have head := marked (symbol, entry) isEntry
      cases entry with
      | nil => simp at head
      | cons first later =>
        rw [Option.getD_some, List.cons_append, restoreAfter]
        simp only [List.cons_append] at found
        rw [found]
        simp only [List.length_cons, Nat.add_sub_cancel]
        rw [restoreAfter_length_append, ih]

end Restoring

end Library
