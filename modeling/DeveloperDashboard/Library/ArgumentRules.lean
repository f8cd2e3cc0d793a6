import Mathlib.Data.List.Basic

namespace Library

/-!
# The argument rules of the Microsoft C runtime

How a command line is split into arguments.  Backslashes count only in front
of a quote: `2n` of them before a quote are `n` backslashes, and the quote
toggles quoting; `2n + 1` are `n` backslashes and a literal quote.  Space and
tab separate arguments outside quotes.
-/

/-- The byte of `\`. -/
def backslash : UInt8 :=
  0x5C

def doubleQuote : UInt8 :=
  0x22

def isSeparator (byte : UInt8) : Bool :=
  decide (byte = 0x20) || decide (byte = 0x09)

/-- An argument that is being read, with the backslashes seen last. -/
structure OpenArgument where
  text : List UInt8
  inQuotes : Bool
  slashes : Nat

namespace OpenArgument

def fresh : OpenArgument where
  text := []
  inQuotes := false
  slashes := 0

def finish (argument : OpenArgument) : List UInt8 :=
  argument.text ++ List.replicate argument.slashes backslash

def read (argument : OpenArgument) (byte : UInt8) : OpenArgument :=
  if byte = backslash then
    { argument with slashes := argument.slashes + 1 }
  else if byte = doubleQuote then
    let text :=
      argument.text ++ List.replicate (argument.slashes / 2) backslash
    if argument.slashes % 2 = 0 then
      { text, inQuotes := !argument.inQuotes, slashes := 0 }
    else
      { text := text ++ [doubleQuote]
        inQuotes := argument.inQuotes
        slashes := 0 }
  else
    { text := argument.finish ++ [byte]
      inQuotes := argument.inQuotes
      slashes := 0 }

end OpenArgument

/-- The arguments that ended, and the one that is open. -/
structure SplitState where
  finished : List (List UInt8)
  current : Option OpenArgument

def SplitState.step (state : SplitState) (byte : UInt8) : SplitState :=
  match state.current with
  | none =>
    if isSeparator byte then state
    else { state with current := some (OpenArgument.fresh.read byte) }
  | some argument =>
    if isSeparator byte && !argument.inQuotes then
      { finished := state.finished ++ [argument.finish], current := none }
    else { state with current := some (argument.read byte) }

def SplitState.reads (state : SplitState) (bytes : List UInt8) :
    SplitState :=
  bytes.foldl SplitState.step state

/-- The arguments of a command line that ends here. -/
def SplitState.arguments (state : SplitState) : List (List UInt8) :=
  state.finished ++ (state.current.map OpenArgument.finish).toList

def splitArguments (line : List UInt8) : List (List UInt8) :=
  (SplitState.reads { finished := [], current := none } line).arguments

namespace SplitState

variable {finished : List (List UInt8)} {argument : OpenArgument}

@[simp] theorem reads_nil (state : SplitState) : state.reads [] = state :=
  rfl

@[simp] theorem reads_cons
    (state : SplitState) (byte : UInt8) (bytes : List UInt8) :
    state.reads (byte :: bytes) = (state.step byte).reads bytes :=
  rfl

@[simp] theorem reads_append (state : SplitState) (left right : List UInt8) :
    state.reads (left ++ right) = (state.reads left).reads right :=
  List.foldl_append

theorem reads_backslashes (count : Nat) :
    SplitState.reads ⟨finished, some argument⟩
        (List.replicate count backslash) =
      ⟨finished, some { argument with
        slashes := argument.slashes + count }⟩ := by
  induction count generalizing argument with
  | zero => rfl
  | succ count ih =>
    have first :
        SplitState.step ⟨finished, some argument⟩ backslash =
          ⟨finished, some { argument with
            slashes := argument.slashes + 1 }⟩ :=
      rfl
    rw [List.replicate_succ, reads_cons, first, ih]
    simp only [Nat.add_assoc, Nat.add_comm 1]

theorem step_literal {byte : UInt8} (notSlash : byte ≠ backslash)
    (notQuote : byte ≠ doubleQuote)
    (inside : isSeparator byte = true → argument.inQuotes = true) :
    SplitState.step ⟨finished, some argument⟩ byte =
      ⟨finished, some {
        text := argument.finish ++ [byte]
        inQuotes := argument.inQuotes
        slashes := 0 }⟩ := by
  have reading :
      ¬ (isSeparator byte && !argument.inQuotes) = true := by
    intro both
    rw [Bool.and_eq_true, Bool.not_eq_true'] at both
    rw [inside both.1] at both
    exact Bool.noConfusion both.2
  simp only [SplitState.step]
  rw [if_neg reading, OpenArgument.read, if_neg notSlash, if_neg notQuote]

theorem step_quote_of_even
    (count : Nat) (even : argument.slashes = 2 * count) :
    SplitState.step ⟨finished, some argument⟩ doubleQuote =
      ⟨finished, some {
        text := argument.text ++ List.replicate count backslash
        inQuotes := !argument.inQuotes
        slashes := 0 }⟩ := by
  have half : argument.slashes / 2 = count := by omega
  have rest : argument.slashes % 2 = 0 := by omega
  change (⟨finished, some (argument.read doubleQuote)⟩ : SplitState) = _
  unfold OpenArgument.read
  rw [if_neg (by decide), if_pos rfl]
  simp only [half]
  rw [if_pos rest]

theorem step_quote_of_odd
    (count : Nat) (odd : argument.slashes = 2 * count + 1) :
    SplitState.step ⟨finished, some argument⟩ doubleQuote =
      ⟨finished, some {
        text :=
          argument.text ++ List.replicate count backslash ++ [doubleQuote]
        inQuotes := argument.inQuotes
        slashes := 0 }⟩ := by
  have half : argument.slashes / 2 = count := by omega
  have rest : ¬ argument.slashes % 2 = 0 := by omega
  change (⟨finished, some (argument.read doubleQuote)⟩ : SplitState) = _
  unfold OpenArgument.read
  rw [if_neg (by decide), if_pos rfl]
  simp only [half]
  rw [if_neg rest]

theorem step_first {byte : UInt8} (notSeparator : isSeparator byte = false) :
    SplitState.step ⟨finished, none⟩ byte =
      SplitState.step ⟨finished, some OpenArgument.fresh⟩ byte := by
  simp only [SplitState.step]
  rw [notSeparator, if_neg Bool.false_ne_true, Bool.false_and,
    if_neg Bool.false_ne_true]

theorem step_space (outside : argument.inQuotes = false) :
    SplitState.step ⟨finished, some argument⟩ 0x20 =
      ⟨finished ++ [argument.finish], none⟩ := by
  simp only [SplitState.step]
  rw [outside]
  rfl

end SplitState

end Library
