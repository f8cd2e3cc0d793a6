import Mathlib.Algebra.GroupWithZero.Nat
import DeveloperDashboard.Library.ArgumentRules
import DeveloperDashboard.Perl.Encoding

namespace DeveloperDashboard.GoRoutine

open Library DeveloperDashboard.Perl

/-!
# The command line of a Windows child process

`dd_windows_command_line` quotes the arguments into one line.  It first adds up
a capacity in words of the machine, with a test against overflow, and then
writes into a block of that many bytes.  The rules by which the child splits
the line give back the arguments; what can go wrong is the capacity.
-/

structure CString where
  bytes : Bytes
  noNul : 0 ∉ bytes

inductive WordSize where
  | bits32
  | bits64
  deriving DecidableEq

/-- `SIZE_MAX + 1`. -/
def WordSize.words : WordSize → Nat
  | .bits32 => 2 ^ 32
  | .bits64 => 2 ^ 64

def needsQuotes (arg : Bytes) : Bool :=
  arg.isEmpty ||
    arg.any fun byte =>
      decide (byte = 0x20 ∨ byte = 0x09 ∨ byte = 0x0A ∨ byte = 0x0B ∨
        byte = doubleQuote)

/--
What the loop writes for the rest of an argument, after some backslashes that
are still held back, with the closing quote.
-/
def quotedRest (quote : Bool) : Nat → Bytes → Bytes
  | slashes, [] =>
    if quote then
      List.replicate (2 * slashes) backslash ++ [doubleQuote]
    else List.replicate slashes backslash
  | slashes, byte :: rest =>
    if byte = backslash then quotedRest quote (slashes + 1) rest
    else if byte = doubleQuote then
      List.replicate (2 * slashes) backslash ++
        backslash :: doubleQuote :: quotedRest quote 0 rest
    else
      List.replicate slashes backslash ++
        byte :: quotedRest quote 0 rest

def quotedArgument (arg : Bytes) : Bytes :=
  if needsQuotes arg then doubleQuote :: quotedRest true 0 arg
  else quotedRest false 0 arg

/-- What is written for all arguments, before the terminator. -/
def quotedArguments : List CString → Bytes
  | [] => []
  | first :: rest =>
    quotedArgument first.bytes ++
      rest.flatMap fun arg => 0x20 :: quotedArgument arg.bytes

/-- The capacity that is added up; `none` where an argument is refused. -/
def addedCapacity (size : WordSize) : Nat → List CString → Option Nat
  | capacity, [] => some capacity
  | capacity, arg :: rest =>
    let len := arg.bytes.length
    let left := (2 * size.words - 5 - capacity) % size.words
    if left / 2 < len then none
    else
      addedCapacity size ((capacity + (len * 2 + 4)) % size.words) rest

/-- The block that is returned: its size, and the bytes before the NUL. -/
structure WrittenLine where
  capacity : Nat
  text : Bytes

/-- How many bytes are written, the terminator included. -/
def WrittenLine.written (line : WrittenLine) : Nat :=
  line.text.length + 1

/--
`dd_windows_command_line`.  `grants` says for which sizes `malloc` succeeds.
-/
def ddWindowsCommandLine
    (size : WordSize) (grants : Nat → Bool) (argv : List CString) :
    Except String WrittenLine :=
  match addedCapacity size 1 argv with
  | none => .error "GoRoutine command line is too large"
  | some capacity =>
    if grants capacity then
      .ok { capacity, text := quotedArguments argv }
    else .error "out of memory building GoRoutine command line"

/-- The child gets its arguments, and nothing is written past the block. -/
def HandsOver (size : WordSize) (argv : List CString) : Prop :=
  ∀ grants,
    (∃ message, ddWindowsCommandLine size grants argv = .error message) ∨
      ∃ line, ddWindowsCommandLine size grants argv = .ok line ∧
        (splitArguments line.text).tail = argv.tail.map CString.bytes ∧
        line.written ≤ line.capacity

/-- Whether a quote or the end follows, backslashes apart. -/
def meetsQuote : Bytes → Bool
  | [] => true
  | byte :: rest =>
    if byte = backslash then meetsQuote rest
    else decide (byte = doubleQuote)

/-- How many backslashes are doubled: the ones that meet a quote. -/
def doubledBackslashes : Bytes → Nat
  | [] => 0
  | byte :: rest =>
    (if byte = backslash ∧ meetsQuote rest = true then 1 else 0) +
      doubledBackslashes rest

/-- How many bytes an argument takes on the line. -/
def neededBytes (arg : Bytes) : Nat :=
  if needsQuotes arg then
    arg.length + 2 + arg.count doubleQuote + doubledBackslashes arg
  else arg.length

/-- The capacity that the arguments add up to, in unbounded numbers. -/
def fullCapacity (argv : List CString) : Nat :=
  1 + (argv.map fun arg => 2 * arg.bytes.length + 4).sum

/--
An argument is too long for what the words of the machine leave after the
arguments before it, or the line fits the remainder of the full capacity.
-/
def HasRoom (size : WordSize) (argv : List CString) : Prop :=
  (∃ before arg after, argv = before ++ arg :: after ∧
    (2 * size.words - 5 - fullCapacity before % size.words) % size.words <
      2 * arg.bytes.length) ∨
  (argv.map fun arg => neededBytes arg.bytes + 1).sum ≤
    fullCapacity argv % size.words

theorem reads_quotedRest
    (quote : Bool) (finished : List Bytes) (text : Bytes)
    (slashes : Nat) (rest : Bytes)
    (plain :
      quote = false →
        ∀ byte ∈ rest, isSeparator byte = false ∧ byte ≠ doubleQuote) :
    ∃ argument : OpenArgument,
      SplitState.reads
          ⟨finished, some { text, inQuotes := quote, slashes := 0 }⟩
          (quotedRest quote slashes rest) =
        ⟨finished, some argument⟩ ∧
      argument.inQuotes = false ∧
      argument.finish =
        text ++ List.replicate slashes backslash ++ rest := by
  induction rest generalizing text slashes with
  | nil =>
    unfold quotedRest
    cases quote with
    | true =>
      rw [if_pos rfl, SplitState.reads_append,
        SplitState.reads_backslashes, SplitState.reads_cons,
        SplitState.step_quote_of_even slashes (Nat.zero_add _)]
      exact ⟨_, rfl, rfl, rfl⟩
    | false =>
      rw [if_neg Bool.false_ne_true, SplitState.reads_backslashes]
      refine ⟨_, rfl, rfl, ?_⟩
      rw [List.append_nil, OpenArgument.finish]
      simp only [Nat.zero_add]
  | cons byte rest ih =>
    have later :
        quote = false →
          ∀ other ∈ rest,
            isSeparator other = false ∧ other ≠ doubleQuote :=
      fun bare other member =>
        plain bare other (List.mem_cons_of_mem _ member)
    unfold quotedRest
    by_cases isSlash : byte = backslash
    · obtain ⟨argument, reading, outside, whole⟩ :=
        ih text (slashes + 1) later
      rw [if_pos isSlash]
      refine ⟨argument, reading, outside, ?_⟩
      rw [whole, isSlash, List.replicate_succ']
      simp only [List.append_assoc, List.singleton_append]
    · by_cases isQuote : byte = doubleQuote
      · obtain ⟨argument, reading, outside, whole⟩ :=
          ih
            (text ++ List.replicate slashes backslash ++ [doubleQuote])
            0 later
        have inside : quote = true := by
          by_contra bare
          exact (plain (Bool.eq_false_iff.mpr bare) byte
            List.mem_cons_self).2 isQuote
        have odd :
            List.replicate (2 * slashes) backslash ++
                backslash :: doubleQuote :: quotedRest quote 0 rest =
              List.replicate (2 * slashes + 1) backslash ++
                doubleQuote :: quotedRest quote 0 rest := by
          rw [List.replicate_succ', List.append_assoc, List.singleton_append]
        rw [if_neg isSlash, if_pos isQuote, odd,
          SplitState.reads_append, SplitState.reads_backslashes,
          SplitState.reads_cons,
          SplitState.step_quote_of_odd slashes (Nat.zero_add _)]
        refine ⟨argument, reading, outside, ?_⟩
        rw [whole, isQuote]
        simp
      · obtain ⟨argument, reading, outside, whole⟩ :=
          ih
            (text ++ List.replicate slashes backslash ++ [byte]) 0 later
        have allowed : isSeparator byte = true → quote = true := by
          intro separator
          by_contra bare
          rw [(plain (Bool.eq_false_iff.mpr bare) byte
            List.mem_cons_self).1] at separator
          exact Bool.noConfusion separator
        rw [if_neg isSlash, if_neg isQuote, SplitState.reads_append,
          SplitState.reads_backslashes, SplitState.reads_cons,
          SplitState.step_literal isSlash isQuote allowed]
        refine ⟨argument, ?_, outside, ?_⟩
        · simpa [OpenArgument.finish] using reading
        · rw [whole]
          simp

theorem plain_of_not_needsQuotes
    {arg : Bytes} (bare : needsQuotes arg = false) :
    arg ≠ [] ∧
      ∀ byte ∈ arg, isSeparator byte = false ∧ byte ≠ doubleQuote := by
  unfold needsQuotes at bare
  rw [Bool.or_eq_false_iff, List.any_eq_false] at bare
  obtain ⟨notEmpty, plain⟩ := bare
  refine ⟨fun empty => ?_, fun byte member => ?_⟩
  · rw [empty] at notEmpty
    contradiction
  · have allowed := plain byte member
    rw [decide_eq_true_eq] at allowed
    push Not at allowed
    refine ⟨?_, allowed.2.2.2.2⟩
    unfold isSeparator
    rw [decide_eq_false allowed.1, decide_eq_false allowed.2.1]
    rfl

theorem quotedRest_false (slashes : Nat) {rest : Bytes}
    (noQuote : ∀ byte ∈ rest, byte ≠ doubleQuote) :
    quotedRest false slashes rest =
      List.replicate slashes backslash ++ rest := by
  induction rest generalizing slashes with
  | nil =>
    unfold quotedRest
    rw [if_neg Bool.false_ne_true, List.append_nil]
  | cons byte rest ih =>
    have later : ∀ other ∈ rest, other ≠ doubleQuote :=
      fun other member => noQuote other (List.mem_cons_of_mem _ member)
    unfold quotedRest
    split
    · next isSlash =>
        rw [ih _ later, isSlash, List.replicate_succ',
          List.append_assoc, List.singleton_append]
    · rw [if_neg (noQuote byte List.mem_cons_self), ih _ later]
      rfl

theorem reads_quotedArgument (finished : List Bytes) (arg : Bytes) :
    ∃ argument : OpenArgument,
      SplitState.reads ⟨finished, none⟩ (quotedArgument arg) =
        ⟨finished, some argument⟩ ∧
      argument.inQuotes = false ∧ argument.finish = arg := by
  unfold quotedArgument
  split
  · rw [SplitState.reads_cons, SplitState.step_first (by decide),
      SplitState.step_quote_of_even 0 rfl]
    exact reads_quotedRest true finished [] 0 arg
      (fun bare => Bool.noConfusion bare)
  · next notQuoted =>
      obtain ⟨notEmpty, plain⟩ :=
        plain_of_not_needsQuotes (Bool.eq_false_iff.mpr notQuoted)
      have copied : quotedRest false 0 arg = arg :=
        quotedRest_false 0 fun byte member => (plain byte member).2
      have reading :
          SplitState.reads ⟨finished, none⟩ arg =
            SplitState.reads ⟨finished, some OpenArgument.fresh⟩ arg := by
        cases arg with
        | nil => exact absurd rfl notEmpty
        | cons byte rest =>
          rw [SplitState.reads_cons, SplitState.reads_cons,
            SplitState.step_first (plain byte List.mem_cons_self).1]
      have result := reads_quotedRest false finished [] 0 arg fun _ => plain
      rw [copied] at result ⊢
      rw [reading]
      exact result

theorem reads_laterArguments
    (finished : List Bytes) {argument : OpenArgument}
    (outside : argument.inQuotes = false) (rest : List CString) :
    (SplitState.reads ⟨finished, some argument⟩
        (rest.flatMap fun arg =>
          0x20 :: quotedArgument arg.bytes)).arguments =
      finished ++ [argument.finish] ++ rest.map CString.bytes := by
  induction rest generalizing finished argument with
  | nil => simp [SplitState.arguments]
  | cons arg rest ih =>
    obtain ⟨next, reading, later, whole⟩ :=
      reads_quotedArgument (finished ++ [argument.finish]) arg.bytes
    rw [List.flatMap_cons, SplitState.reads_append,
      SplitState.reads_cons, SplitState.step_space outside, reading,
      ih _ later, whole, List.map_cons]
    simp

theorem splitArguments_quotedArguments (argv : List CString) :
    splitArguments (quotedArguments argv) = argv.map CString.bytes := by
  cases argv with
  | nil => rfl
  | cons first rest =>
    obtain ⟨argument, reading, outside, whole⟩ :=
      reads_quotedArgument [] first.bytes
    unfold splitArguments quotedArguments
    rw [SplitState.reads_append, reading,
      reads_laterArguments [] outside rest, whole]
    rfl

theorem length_quotedRest (slashes : Nat) (rest : Bytes) :
    (quotedRest true slashes rest).length =
      slashes + (if meetsQuote rest then slashes else 0) +
        (rest.length + 1 + rest.count doubleQuote +
          doubledBackslashes rest) := by
  induction rest generalizing slashes with
  | nil =>
    simp [quotedRest, meetsQuote, doubledBackslashes]
    omega
  | cons byte rest ih =>
    unfold quotedRest meetsQuote doubledBackslashes
    by_cases isSlash : byte = backslash
    · subst isSlash
      have notQuote : backslash ≠ doubleQuote := by decide
      rw [if_pos rfl, if_pos rfl, ih,
        List.count_cons_of_ne notQuote, List.length_cons]
      simp only [true_and]
      split
      · omega
      · omega
    · by_cases isQuote : byte = doubleQuote
      · simp [isQuote, ih, backslash, doubleQuote]
        omega
      · simp [isSlash, isQuote, ih]
        omega

theorem length_quotedArgument (arg : Bytes) :
    (quotedArgument arg).length = neededBytes arg := by
  unfold quotedArgument neededBytes
  split
  · rw [List.length_cons, length_quotedRest]
    simp
    omega
  · next notQuoted =>
      obtain ⟨-, plain⟩ :=
        plain_of_not_needsQuotes (Bool.eq_false_iff.mpr notQuoted)
      rw [quotedRest_false 0 fun byte member => (plain byte member).2]
      simp

variable {argv : List CString}

theorem written_eq (given : argv ≠ []) :
    (quotedArguments argv).length + 1 =
      (argv.map fun arg => neededBytes arg.bytes + 1).sum := by
  cases argv with
  | nil => exact absurd rfl given
  | cons first rest =>
    have later :
        (rest.flatMap fun arg =>
          0x20 :: quotedArgument arg.bytes).length =
          (rest.map fun arg => neededBytes arg.bytes + 1).sum := by
      rw [List.length_flatMap]
      simp only [List.length_cons, length_quotedArgument]
    unfold quotedArguments
    rw [List.length_append, later, length_quotedArgument,
      List.map_cons, List.sum_cons]
    omega

theorem le_neededBytes (arg : Bytes) : arg.length ≤ neededBytes arg := by
  unfold neededBytes
  split
  · omega
  · omega

theorem fullCapacity_append (before : List CString) (arg : CString) :
    fullCapacity (before ++ [arg]) =
      fullCapacity before + (arg.bytes.length * 2 + 4) := by
  unfold fullCapacity
  rw [List.map_append, List.sum_append, List.map_singleton,
    List.sum_singleton]
  omega

theorem eq_of_addedCapacity
    {size : WordSize} {before argv : List CString} {capacity : Nat}
    (added :
      addedCapacity size (fullCapacity before % size.words) argv =
        some capacity) :
    capacity = fullCapacity (before ++ argv) % size.words := by
  induction argv generalizing before with
  | nil =>
    rw [List.append_nil]
    exact (Option.some.inj added).symm
  | cons arg rest ih =>
    unfold addedCapacity at added
    simp only at added
    split at added
    · contradiction
    · rw [Nat.mod_add_mod, ← fullCapacity_append] at added
      rw [ih added, List.append_assoc, List.singleton_append]

theorem addedCapacity_eq_none_iff
    {size : WordSize} {before argv : List CString} :
    addedCapacity size (fullCapacity before % size.words) argv = none ↔
      ∃ front arg after, argv = front ++ arg :: after ∧
        (2 * size.words - 5 - fullCapacity (before ++ front) % size.words) %
            size.words <
          2 * arg.bytes.length := by
  induction argv generalizing before with
  | nil => simp [addedCapacity]
  | cons arg rest ih =>
    unfold addedCapacity
    simp only
    split
    · next refused =>
        simp only [true_iff]
        refine ⟨[], arg, rest, rfl, ?_⟩
        rw [List.append_nil]
        omega
    · next accepted =>
        rw [Nat.mod_add_mod, ← fullCapacity_append, ih]
        constructor
        · rintro ⟨front, other, after, rfl, refused⟩
          refine ⟨arg :: front, other, after, rfl, ?_⟩
          rw [List.append_assoc, List.singleton_append] at refused
          exact refused
        · rintro ⟨front, other, after, whole, refused⟩
          cases front with
          | nil =>
            obtain ⟨rfl, rfl⟩ := List.cons.inj whole
            rw [List.append_nil] at refused
            omega
          | cons first front =>
            obtain ⟨rfl, rfl⟩ := List.cons.inj whole
            refine ⟨front, other, after, rfl, ?_⟩
            rw [List.append_assoc, List.singleton_append]
            exact refused

variable {size : WordSize}

theorem handsOver_of_le
    (fits :
      ∀ capacity, addedCapacity size 1 argv = some capacity →
        (quotedArguments argv).length + 1 ≤ capacity) :
    HandsOver size argv := by
  intro grants
  unfold ddWindowsCommandLine
  cases added : addedCapacity size 1 argv with
  | none => exact .inl ⟨_, rfl⟩
  | some capacity =>
    simp only
    split
    · refine .inr ⟨_, rfl, ?_, fits capacity added⟩
      simp only
      rw [splitArguments_quotedArguments, List.map_tail]
    · exact .inl ⟨_, rfl⟩

theorem le_of_handsOver (handsOver : HandsOver size argv)
    {capacity : Nat} (added : addedCapacity size 1 argv = some capacity) :
    (quotedArguments argv).length + 1 ≤ capacity := by
  have returned :
      ddWindowsCommandLine size (fun _ => true) argv =
        .ok { capacity, text := quotedArguments argv } := by
    unfold ddWindowsCommandLine
    rw [added]
    rfl
  rcases handsOver fun _ => true with ⟨message, died⟩ | ⟨line, given, -, fits⟩
  · rw [returned] at died
    contradiction
  · rw [returned] at given
    obtain rfl := Except.ok.inj given
    exact fits

theorem fullCapacity_nil (size : WordSize) :
    fullCapacity [] % size.words = 1 := by
  cases size with
  | bits32 => rfl
  | bits64 => rfl

/--
Every argument list is handed over, or refused, if and only if the capacity
has room for the line.
-/
theorem handsOver_iff
    (size : WordSize) (argv : List CString) (given : argv ≠ []) :
    HandsOver size argv ↔ HasRoom size argv := by
  have start := @addedCapacity_eq_none_iff size [] argv
  have added := @eq_of_addedCapacity size [] argv
  simp only [fullCapacity_nil, List.nil_append] at start added
  unfold HasRoom
  rw [← start, ← written_eq given]
  constructor
  · intro handsOver
    cases result : addedCapacity size 1 argv with
    | none => exact .inl rfl
    | some capacity =>
      refine .inr ?_
      rw [← added result]
      exact le_of_handsOver handsOver result
  · intro room
    refine handsOver_of_le fun capacity result => ?_
    rcases room with refused | fits
    · rw [result] at refused
      contradiction
    · rw [added result]
      exact fits

def letters (count : Nat) : CString where
  bytes := List.replicate count 0x61
  noNul := fun isNul =>
    absurd (List.eq_of_mem_replicate isNul) (by decide)

theorem handsOver_iff_twoArguments :
    [letters 3, letters 0] ≠ [] ∧
      (HandsOver .bits64 [letters 3, letters 0] ↔
        HasRoom .bits64 [letters 3, letters 0]) :=
  ⟨List.cons_ne_nil _ _, handsOver_iff _ _ (List.cons_ne_nil _ _)⟩

/-- Arguments that add up to the largest word, before an empty one. -/
def wrappingArguments : List CString :=
  List.replicate 7 (letters (2 ^ 28 - 2)) ++
    [letters (2 ^ 28 - 3), letters 0]

theorem addedCapacity_letters {capacity count : Nat} {next : Nat}
    (accepted :
      ¬ (2 * size.words - 5 - capacity) % size.words / 2 < count)
    (added : (capacity + (count * 2 + 4)) % size.words = next)
    (rest : List CString) :
    addedCapacity size capacity (letters count :: rest) =
      addedCapacity size next rest := by
  have length : (letters count).bytes.length = count :=
    List.length_replicate
  rw [addedCapacity]
  simp only [length]
  rw [if_neg accepted, added]

/-- The arguments of equal length leave a word. -/
theorem addedCapacity_copies
    (before copies : Nat) (few : before + copies ≤ 7) (rest : List CString) :
    addedCapacity .bits32 (1 + before * 2 ^ 29)
        (List.replicate copies (letters (2 ^ 28 - 2)) ++ rest) =
      addedCapacity .bits32 (1 + (before + copies) * 2 ^ 29) rest := by
  induction copies generalizing before with
  | zero => rfl
  | succ copies ih =>
    have words : WordSize.bits32.words = 2 ^ 32 := rfl
    have next :
        (1 + before * 2 ^ 29 + ((2 ^ 28 - 2) * 2 + 4)) %
            WordSize.bits32.words =
          1 + (before + 1) * 2 ^ 29 := by
      rw [words]
      omega
    have accepted :
        ¬ (2 * WordSize.bits32.words - 5 - (1 + before * 2 ^ 29)) %
            WordSize.bits32.words / 2 <
          2 ^ 28 - 2 := by
      rw [words]
      omega
    rw [List.replicate_succ, List.cons_append,
      addedCapacity_letters accepted next,
      ih (before + 1) (by omega), Nat.add_assoc before,
      Nat.add_comm 1 copies]

theorem addedCapacity_wrappingArguments :
    addedCapacity .bits32 1 wrappingArguments = some 3 := by
  calc addedCapacity .bits32 1 wrappingArguments
    _ = addedCapacity .bits32 (1 + (0 + 7) * 2 ^ 29)
          [letters (2 ^ 28 - 3), letters 0] :=
        addedCapacity_copies 0 7 (by decide) _
    _ = addedCapacity .bits32 (2 ^ 32 - 1) [letters 0] :=
        addedCapacity_letters (by decide) (by decide) _
    _ = addedCapacity .bits32 3 [] :=
        addedCapacity_letters (by decide) (by decide) _

/-- A line of two gigabytes is written into three bytes. -/
theorem line_overruns_capacity :
    ¬ ∀ size argv, argv ≠ [] → HandsOver size argv := by
  intro always
  have given : wrappingArguments ≠ [] := List.cons_ne_nil _ _
  have fits :=
    le_of_handsOver (always .bits32 wrappingArguments given)
      addedCapacity_wrappingArguments
  rw [written_eq given, wrappingArguments, List.replicate_succ,
    List.cons_append, List.map_cons, List.sum_cons] at fits
  have long := le_neededBytes (letters (2 ^ 28 - 2)).bytes
  have length : (letters (2 ^ 28 - 2)).bytes.length = 2 ^ 28 - 2 :=
    List.length_replicate
  rw [length] at long
  omega

end DeveloperDashboard.GoRoutine
