import DeveloperDashboard.Library.ShellWords
import DeveloperDashboard.Workspace.WorkspaceCommand

namespace DeveloperDashboard.Workspace.QuotedWords

open Library Library.ShellWords Perl

/-!
# Quoted words in generated commands

`shell_quote_for` and `_powershell_single_quote` put a value into the text of
a command.  `apply_ticket_status` puts a quoted path into a status format that
tmux expands before a shell reads it.
-/

/-- The shells that `normalize_shell_name` accepts. -/
inductive Shell where
  | bash
  | zsh
  | sh
  | powershell
  | pwsh
deriving DecidableEq

namespace Shell

def isPowershell (shell : Shell) : Bool :=
  shell == .powershell || shell == .pwsh

/-- What the shell reads of a text that is one argument. -/
def argument (shell : Shell) (text : Text) : Option Text :=
  if shell.isPowershell then verbatimArgument text else onlyWord text

end Shell

def isSlash (char : Char) : Bool :=
  char == '/' || char == '\\'

/-- `s{.*[\\/]}{}`, which works on the first line that has a slash. -/
def withoutDirectory : List Text → List Text
  | [] => []
  | line :: lines =>
    if line.any isSlash then line.rtakeWhile (!isSlash ·) :: lines
    else line :: withoutDirectory lines

/-- `normalize_shell_name`, where `native_shell_name` gives the first name. -/
def normalizeShellName (native : Except Text Text) (shell : Option Text) :
    Except Text Shell := do
  let name ← if shell.getD [] = [] then native else pure (shell.getD [])
  let name :=
    List.intercalate ['\n'] (withoutDirectory (name.splitOn '\n'))
  let name := if name = ['0'] then [] else name.map Char.toLower
  if name = "ps".toList ∨ name = "powershell.exe".toList then
    return .powershell
  if name = "pwsh.exe".toList then return .pwsh
  if name = "bash".toList then return .bash
  if name = "zsh".toList then return .zsh
  if name = "sh".toList then return .sh
  if name = "powershell".toList then return .powershell
  if name = "pwsh".toList then return .pwsh
  throw ("Unsupported shell '".toList ++ name ++ "'\n".toList)

/-- `shell_quote_for`, once the name of the shell is normalized. -/
def quoteFor (shell : Shell) (value : Text) : Text :=
  if shell.isPowershell then
    quote :: (replaceQuote [quote, quote] value ++ [quote])
  else
    quote :: (replaceQuote [quote, '\\', quote, quote] value ++ [quote])

/-- `shell_quote_for` -/
def shellQuoteFor (native : Except Text Text) (shell value : Option Text) :
    Except Text Text := do
  let shell ← normalizeShellName native shell
  return quoteFor shell (value.getD [])

/-- `_powershell_single_quote` -/
def powershellSingleQuote (value : Option Text) : Text :=
  quote :: (replaceQuote [quote, quote] (value.getD []) ++ [quote])

/-- What tmux puts into formats, with the documented `strftime`. -/
structure TmuxFormats where
  strftime : Text → Text
  ordinary : ∀ text, '%' ∉ text → strftime text = text
  value : Text → Text
  short : Char → Text

def splitParen : Nat → Text → Option (Text × Text)
  | _, [] => none
  | 0, ')' :: rest => some ([], rest)
  | depth + 1, ')' :: rest => push ')' (splitParen depth rest)
  | depth, '(' :: rest => push '(' (splitParen (depth + 1) rest)
  | depth, char :: rest => push char (splitParen depth rest)

def splitBrace : Nat → Text → Option (Text × Text)
  | _, [] => none
  | depth, '#' :: '\x7b' :: rest =>
    push '#' (push '\x7b' (splitBrace (depth + 1) rest))
  | depth, '#' :: mark :: rest =>
    if [',', '#', '\x7d', ':'].contains mark then
      push '#' (push mark (splitBrace depth rest))
    else push '#' (splitBrace depth (mark :: rest))
  | 0, '\x7d' :: rest => some ([], rest)
  | depth + 1, '\x7d' :: rest => push '\x7d' (splitBrace depth rest)
  | depth, char :: rest => push char (splitBrace depth rest)

/-- Whether `#` in front of a text is more than itself. -/
def startsSequence : Text → Bool
  | [] => false
  | mark :: rest =>
    "(,\x7b\x7dDFHIPSTWh".toList.contains mark ||
      mark == '#' && (rest.dropWhile (· == '#')).head? != some '['

/--
What tmux puts for a sequence whose `#` is read, and the rest.  It stops at a
sequence that is not closed.
-/
def sequence (tmux : TmuxFormats) : Text → Text × Text
  | [] => ([], [])
  | '\x7b' :: rest =>
    match splitBrace 0 rest with
    | some (name, behind) => (tmux.value name, behind)
    | none => ([], [])
  | '(' :: rest =>
    -- a command runs no commands for its own text
    match splitParen 0 rest with
    | some (_, behind) => ([], behind)
    | none => ([], [])
  | mark :: rest =>
    (if ['#', ',', '\x7d'].contains mark then [mark] else tmux.short mark,
      rest)

/-- The expansion of a command, with fuel for its characters. -/
def expandWithin (tmux : TmuxFormats) : Nat → Text → Text
  | 0, _ => []
  | _ + 1, [] => []
  | fuel + 1, char :: rest =>
    if char = '#' ∧ startsSequence rest = true then
      (sequence tmux rest).1 ++ expandWithin tmux fuel (sequence tmux rest).2
    else char :: expandWithin tmux fuel rest

def handedCommand (tmux : TmuxFormats) (format : Text) : Option Text :=
  match tmux.strftime format with
  | '#' :: '(' :: rest =>
    (splitParen 0 rest).map fun found =>
      expandWithin tmux found.1.length found.1
  | _ => none

/-- The first word of the command in the status of a ticket session. -/
def statusWord (tmux : TmuxFormats) (options : Environment)
    (dashboard : Text) : Option Text :=
  ((((applyTicketStatus (quoteFor .sh dashboard) options).lookup
    "status-format[0]".toList).bind (handedCommand tmux)).bind
      (readWord false)).map Prod.fst

/-- How many parentheses are open behind a text that closes no others. -/
def parenDepth : Nat → Text → Option Nat
  | depth, [] => some depth
  | 0, ')' :: _ => none
  | depth + 1, ')' :: rest => parenDepth depth rest
  | depth, '(' :: rest => parenDepth (depth + 1) rest
  | depth, _ :: rest => parenDepth depth rest

/-- A path in which tmux reads nothing of its own. -/
structure LeftAlone (path : Text) : Prop where
  noConversion : '%' ∉ path
  parens : parenDepth 0 path = some 0
  noSequence : ∀ front rest, path = front ++ '#' :: rest →
    startsSequence rest = false

/-- The width of the client, which tmux puts into the command. -/
def statusTail : Text :=
  '\x7b' :: "client_width\x7d".toList

/-- The command behind the quoted path. -/
def statusRest : Text :=
  ' ' :: "ps1 --mode tmux-status-top --width ".toList

theorem lookup_applyTicketStatus (quoted : Text) (options : Environment) :
    (applyTicketStatus quoted options).lookup "status-format[0]".toList =
      some ("#(".toList ++ (quoted ++ (statusRest ++ '#' :: statusTail) ++
        [')'])) := by
  have format : (" ps1 --mode tmux-status-top " ++
      "--width #\x7bclient_width\x7d)").toList =
      statusRest ++ '#' :: statusTail ++ [')'] := by
    rfl
  have second : "status-format[1]".toList ≠ "status-format[0]".toList := by
    decide
  have third : "status-format[2]".toList ≠ "status-format[0]".toList := by
    decide
  unfold applyTicketStatus
  dsimp only
  rw [Entries.lookup_remove_of_ne _ third, apply_ite (Entries.lookup · _),
    Entries.lookup_store_of_ne _ second, Entries.lookup_store_self, ite_self,
    format]
  simp only [List.append_assoc]

/-- A path as it stands between the quotes of `sh`. -/
def escaped (path : Text) : Text :=
  replaceQuote [quote, '\\', quote, quote] path

/-- The command behind the path, with the quote that closes it. -/
def closing : Text :=
  quote :: (statusRest ++ '#' :: statusTail)

theorem not_mem_statusRest : '#' ∉ quote :: statusRest := by
  decide

theorem parenDepth_closing (depth : Nat) :
    parenDepth depth closing = some depth := by
  cases depth <;> rfl

theorem statusWord_eq (tmux : TmuxFormats) (options : Environment)
    (path : Text) :
    statusWord tmux options path =
      ((handedCommand tmux
          ('#' :: '(' :: (quote :: escaped path ++ closing ++ [')']))).bind
        (readWord false)).map Prod.fst := by
  have format : "#(".toList ++ (quoteFor .sh path ++
      (statusRest ++ '#' :: statusTail) ++ [')']) =
      '#' :: '(' :: (quote :: escaped path ++ closing ++ [')']) := by
    simp [quoteFor, Shell.isPowershell, closing, escaped]
  unfold statusWord
  rw [lookup_applyTicketStatus, format]
  rfl

theorem parenDepth_append (depth : Nat) (front back : Text) :
    parenDepth depth (front ++ back) =
      (parenDepth depth front).bind (parenDepth · back) := by
  fun_induction parenDepth depth front <;> simp_all [parenDepth]

theorem splitParen_append (depth : Nat) (front back : Text) {left : Nat}
    (open_ : parenDepth depth front = some left) :
    splitParen depth (front ++ back) =
      (splitParen left back).map fun found =>
        (front ++ found.1, found.2) := by
  fun_induction parenDepth depth front <;> simp_all [splitParen, push] <;> rfl

theorem parenDepth_escaped (depth : Nat) (path : Text) :
    parenDepth depth (escaped path) = parenDepth depth path := by
  induction path generalizing depth with
  | nil => rfl
  | cons char rest ih =>
    by_cases isQuoted : char = quote
    · rw [isQuoted, escaped, replaceQuote_cons_self, parenDepth_append]
      exact ih depth
    · rw [escaped, replaceQuote_cons_of_ne isQuoted, ← escaped]
      by_cases closes : char = ')'
      · cases depth <;> simp [closes, parenDepth, ih]
      · by_cases opens : char = '(' <;>
          simp [closes, opens, parenDepth, ih]

theorem count_escaped {char : Char} (notQuote : char ≠ quote)
    (notSlash : char ≠ '\\') (path : Text) :
    (escaped path).count char = path.count char := by
  induction path with
  | nil => rfl
  | cons other rest ih =>
    by_cases isQuoted : other = quote
    · rw [isQuoted, escaped, replaceQuote_cons_self, List.count_append,
        List.count_cons_of_ne notQuote.symm]
      simp [notQuote.symm, notSlash.symm]
      exact ih
    · rw [escaped, replaceQuote_cons_of_ne isQuoted, List.count_cons,
        List.count_cons]
      exact congrArg (· + _) ih

theorem startsSequence_quote (rest : Text) :
    startsSequence (quote :: rest) = false := by
  have other : "(,\x7b\x7dDFHIPSTWh".toList.contains quote = false := by
    rfl
  rw [startsSequence, other]
  rfl

theorem head?_dropWhile_escaped (path rest : Text) :
    (((escaped path ++ quote :: rest).dropWhile (· == '#')).head? !=
        some '[') =
      ((path.dropWhile (· == '#')).head? != some '[') := by
  induction path with
  | nil => rfl
  | cons char path ih =>
    by_cases isQuoted : char = quote
    · rw [isQuoted]
      rfl
    · rw [escaped, replaceQuote_cons_of_ne isQuoted, List.cons_append,
        List.dropWhile_cons, List.dropWhile_cons]
      split
      · exact ih
      · rfl

theorem startsSequence_escaped (path rest : Text) :
    startsSequence (escaped path ++ quote :: rest) = startsSequence path := by
  cases path with
  | nil => exact startsSequence_quote rest
  | cons char path =>
    by_cases isQuoted : char = quote
    · rw [isQuoted, startsSequence_quote]
      exact startsSequence_quote _
    · rw [escaped, replaceQuote_cons_of_ne isQuoted, List.cons_append,
        startsSequence, startsSequence]
      exact congrArg (_ || _ && ·) (head?_dropWhile_escaped path rest)

theorem expandWithin_nil (tmux : TmuxFormats) (fuel : Nat) :
    expandWithin tmux fuel [] = [] := by
  cases fuel <;> rfl

theorem expandWithin_cons_of_ne (tmux : TmuxFormats) (fuel : Nat)
    {char : Char} (other : char ≠ '#') (rest : Text) :
    expandWithin tmux (fuel + 1) (char :: rest) =
      char :: expandWithin tmux fuel rest := by
  rw [expandWithin, if_neg fun starts => other starts.1]

theorem expandWithin_plain (tmux : TmuxFormats) (fuel : Nat) {front : Text}
    (plain : '#' ∉ front) (rest : Text) :
    expandWithin tmux (front.length + fuel) (front ++ rest) =
      front ++ expandWithin tmux fuel rest := by
  induction front with
  | nil => rw [List.length_nil, Nat.zero_add]; rfl
  | cons char front ih =>
    obtain ⟨other, plain⟩ := not_or.mp (mt List.mem_cons.mpr plain)
    rw [List.length_cons, Nat.add_right_comm, List.cons_append,
      expandWithin_cons_of_ne _ _ (Ne.symm other), ih plain]
    rfl

theorem expandWithin_escaped (tmux : TmuxFormats) (fuel : Nat) {path : Text}
    (noSequence : ∀ front rest, path = front ++ '#' :: rest →
      startsSequence rest = false) (rest : Text) :
    expandWithin tmux ((escaped path).length + fuel)
        (escaped path ++ quote :: rest) =
      escaped path ++ expandWithin tmux fuel (quote :: rest) := by
  induction path with
  | nil => exact expandWithin_plain tmux fuel List.not_mem_nil _
  | cons char path ih =>
    have ih := ih fun front behind same =>
      noSequence (char :: front) behind (congrArg (char :: ·) same)
    by_cases isQuoted : char = quote
    · have plain : '#' ∉ [quote, '\\', quote, quote] := by decide
      rw [isQuoted, escaped, replaceQuote_cons_self, List.length_append,
        Nat.add_assoc, List.append_assoc, expandWithin_plain _ _ plain]
      exact congrArg (_ ++ ·) ih
    · rw [escaped, replaceQuote_cons_of_ne isQuoted, List.length_cons,
        Nat.add_right_comm, List.cons_append, expandWithin, if_neg]
      · exact congrArg (char :: ·) ih
      · rintro ⟨isHash, starts⟩
        rw [← escaped, startsSequence_escaped,
          noSequence [] path (congrArg (· :: path) isHash)] at starts
        cases starts

theorem sequence_statusTail (tmux : TmuxFormats) :
    sequence tmux statusTail = (tmux.value "client_width".toList, []) := by
  have name : splitBrace 0 "client_width\x7d".toList =
      some ("client_width".toList, []) := by
    rfl
  rw [statusTail, sequence, name]

theorem expandWithin_statusTail (tmux : TmuxFormats) (fuel : Nat) :
    expandWithin tmux (fuel + 1) ('#' :: statusTail) =
      tmux.value "client_width".toList := by
  have starts : startsSequence statusTail = true := by rfl
  rw [expandWithin, if_pos ⟨rfl, starts⟩, sequence_statusTail,
    expandWithin_nil, List.append_nil]

theorem expandWithin_quoted (tmux : TmuxFormats) {path : Text}
    (noSequence : ∀ front rest, path = front ++ '#' :: rest →
      startsSequence rest = false) :
    expandWithin tmux (quote :: escaped path ++ closing).length
        (quote :: escaped path ++ closing) =
      quote :: (escaped path ++ quote :: (statusRest ++
        tmux.value "client_width".toList)) := by
  have length : (quote :: escaped path ++ closing).length =
      (escaped path).length + ((quote :: statusRest).length +
        (statusTail.length + 1)) + 1 := by
    simp [closing]
    omega
  have behind := expandWithin_plain tmux (statusTail.length + 1)
    not_mem_statusRest ('#' :: statusTail)
  rw [length, List.cons_append, expandWithin_cons_of_ne _ _ (by decide),
    closing, expandWithin_escaped tmux _ noSequence]
  rw [expandWithin_statusTail] at behind
  exact congrArg (quote :: escaped path ++ ·) behind

theorem handedCommand_quoted (tmux : TmuxFormats) {path : Text}
    (noConversion : '%' ∉ path) :
    handedCommand tmux
        ('#' :: '(' :: (quote :: escaped path ++ closing ++ [')'])) =
      (splitParen 0 (quote :: escaped path ++ closing ++ [')'])).map
        fun found => expandWithin tmux found.1.length found.1 := by
  have ordinary : '%' ∉ '#' :: '(' ::
      (quote :: escaped path ++ closing ++ [')']) := by
    have inPath : '%' ∉ escaped path := by
      rw [← List.count_eq_zero, count_escaped (by decide) (by decide)]
      exact List.count_eq_zero.mpr noConversion
    have inRest : '%' ∉ closing := by decide
    simp [inPath, inRest, quote]
  rw [handedCommand, tmux.ordinary _ ordinary]
  rfl

theorem LeftAlone.statusWord {path : Text} (alone : LeftAlone path)
    (tmux : TmuxFormats) (options : Environment) :
    statusWord tmux options path = some path := by
  have depth : parenDepth 0 (quote :: escaped path ++ closing) = some 0 := by
    rw [parenDepth_append]
    show (parenDepth 0 (escaped path)).bind (parenDepth · closing) = some 0
    rw [parenDepth_escaped, alone.parens]
    exact parenDepth_closing 0
  have split_ : splitParen 0 (quote :: escaped path ++ closing ++ [')']) =
      some (quote :: escaped path ++ closing, []) := by
    rw [splitParen_append 0 _ [')'] depth]
    simp [splitParen]
  have read : readWord true (escaped path ++ quote :: (statusRest ++
      tmux.value "client_width".toList)) =
      some (path, statusRest ++ tmux.value "client_width".toList) :=
    readWord_replaceQuote path rfl
  rw [statusWord_eq, handedCommand_quoted tmux alone.noConversion, split_,
    Option.map_some, expandWithin_quoted tmux alone.noSequence,
    Option.bind_some, readWord_quote, read]
  rfl

def bareTmux : TmuxFormats where
  strftime text := if '%' ∈ text then [] else text
  ordinary _ none_ := if_neg none_
  value _ := []
  short _ := []

theorem splitParen_eq_some {depth : Nat} {text inside behind : Text}
    (split_ : splitParen depth text = some (inside, behind)) :
    text = inside ++ ')' :: behind := by
  fun_induction splitParen depth text generalizing inside behind with
  | case1 => cases split_
  | case2 => cases split_; rfl
  | case3 _ _ ih | case4 _ _ ih | case5 _ _ _ _ _ _ ih =>
    obtain ⟨later, found, rfl⟩ := push_eq_some_iff.mp split_
    exact congrArg (List.cons _) (ih found)

theorem splitBrace_eq_some {depth : Nat} {text inside behind : Text}
    (split_ : splitBrace depth text = some (inside, behind)) :
    text = inside ++ '\x7d' :: behind := by
  fun_induction splitBrace depth text generalizing inside behind with
  | case1 => cases split_
  | case2 _ _ ih | case3 _ _ _ _ _ ih =>
    obtain ⟨later, found, rfl⟩ := push_eq_some_iff.mp split_
    obtain ⟨last, inner, rfl⟩ := push_eq_some_iff.mp found
    exact congrArg (List.cons _ <| List.cons _ ·) (ih inner)
  | case5 => cases split_; rfl
  | case4 _ _ _ _ _ ih | case6 _ _ ih | case7 _ _ _ _ _ _ _ ih =>
    obtain ⟨later, found, rfl⟩ := push_eq_some_iff.mp split_
    exact congrArg (List.cons _) (ih found)

/-- What a sequence reads is dropped, but for one character. -/
theorem exists_read_sequence (rest : Text) :
    ∃ read, rest = read ++ (sequence bareTmux rest).2 ∧
      ((sequence bareTmux rest).1 = [] ∨
        (sequence bareTmux rest).1 = read ∧ read.length = 1) := by
  fun_cases sequence bareTmux rest with
  | case1 => exact ⟨[], rfl, .inl rfl⟩
  | case2 rest name behind closed =>
    exact ⟨'\x7b' :: name ++ ['\x7d'], by
      simp [splitBrace_eq_some closed], .inl rfl⟩
  | case3 rest => exact ⟨'\x7b' :: rest, by simp, .inl rfl⟩
  | case4 rest name behind closed =>
    exact ⟨'(' :: name ++ [')'], by
      simp [splitParen_eq_some closed], .inl rfl⟩
  | case5 rest => exact ⟨'(' :: rest, by simp, .inl rfl⟩
  | case6 mark rest =>
    refine ⟨[mark], rfl, ?_⟩
    dsimp only
    split
    · exact .inr ⟨rfl, rfl⟩
    · exact .inl rfl

theorem sublist_expandWithin (fuel : Nat) (text : Text) :
    (expandWithin bareTmux fuel text).Sublist text := by
  induction fuel generalizing text with
  | zero => exact List.nil_sublist _
  | succ fuel ih =>
    cases text with
    | nil => exact List.Sublist.refl _
    | cons char rest =>
      rw [expandWithin]
      split
      · obtain ⟨read, whole, kept⟩ := exists_read_sequence rest
        have shorter : ((sequence bareTmux rest).1 ++
            expandWithin bareTmux fuel (sequence bareTmux rest).2).Sublist
            rest := by
          conv => rhs; rw [whole]
          refine List.Sublist.append ?_ (ih _)
          rcases kept with empty | ⟨same, -⟩
          · rw [empty]
            exact List.nil_sublist _
          · rw [same]
        exact shorter.cons _
      · exact (ih rest).cons_cons char

theorem not_mem_expandWithin {fuel : Nat} {text : Text} (plain : '#' ∉ text) :
    '#' ∉ expandWithin bareTmux fuel text :=
  fun member => plain ((sublist_expandWithin fuel text).subset member)

theorem not_mem_expandWithin_append {front : Text} (plain : '#' ∉ front)
    (fuel : Nat) :
    '#' ∉ expandWithin bareTmux fuel (front ++ '#' :: statusTail) := by
  induction fuel generalizing front with
  | zero => exact List.not_mem_nil
  | succ fuel ih =>
    cases front with
    | nil =>
      rw [List.nil_append, expandWithin_statusTail]
      exact List.not_mem_nil
    | cons char front =>
      obtain ⟨other, plain⟩ := not_or.mp (mt List.mem_cons.mpr plain)
      rw [List.cons_append, expandWithin_cons_of_ne _ _ (Ne.symm other)]
      exact fun member => (List.mem_cons.mp member).elim other (ih plain)

/-- Whatever is left of the command, its own format leaves nothing. -/
theorem not_mem_expandWithin_of_closing {front back : Text}
    (whole : closing = front ++ back) (fuel : Nat) :
    '#' ∉ expandWithin bareTmux fuel back := by
  have tail : '#' ∉ statusTail := by decide
  rcases List.append_eq_append_iff.mp
    (show (quote :: statusRest) ++ '#' :: statusTail = front ++ back
      from whole) with ⟨between, -, behind⟩ | ⟨between, inRest, rfl⟩
  · cases between with
    | nil =>
      rw [List.nil_append] at behind
      rw [← behind]
      exact not_mem_expandWithin_append List.not_mem_nil fuel
    | cons char between =>
      have isTail : statusTail = between ++ back := (List.cons.inj behind).2
      rw [isTail] at tail
      exact not_mem_expandWithin
        fun member => tail (List.mem_append_right _ member)
  · refine not_mem_expandWithin_append
      (fun member => not_mem_statusRest ?_) fuel
    rw [inRest]
    exact List.mem_append_right _ member

/-- Every sequence in front of the end of the command costs a `#`. -/
theorem count_expandWithin (fuel : Nat) (front : Text) :
    (expandWithin bareTmux fuel (front ++ closing)).count '#' ≤
        front.count '#' ∧
      ∀ before rest, front = before ++ '#' :: rest →
        startsSequence (rest ++ closing) = true →
        (expandWithin bareTmux fuel (front ++ closing)).count '#' <
          front.count '#' := by
  induction fuel generalizing front with
  | zero =>
    refine ⟨Nat.zero_le _, fun before rest whole _ => ?_⟩
    rw [whole, expandWithin, List.count_append, List.count_cons_self]
    exact Nat.zero_lt_succ _
  | succ fuel ih =>
    cases front with
    | nil =>
      refine ⟨?_, fun before rest whole _ => ?_⟩
      · exact Nat.le_of_eq (List.count_eq_zero.mpr
          (not_mem_expandWithin_of_closing (List.nil_append closing).symm _))
      · simp at whole
    | cons char front =>
      rw [List.cons_append, expandWithin]
      split
      · next starts =>
        have fewer : ((sequence bareTmux (front ++ closing)).1 ++
            expandWithin bareTmux fuel
              (sequence bareTmux (front ++ closing)).2).count '#' ≤
            front.count '#' := by
          obtain ⟨read, whole, kept⟩ := exists_read_sequence (front ++ closing)
          generalize (sequence bareTmux (front ++ closing)).1 = put at kept ⊢
          generalize (sequence bareTmux (front ++ closing)).2 = behind
            at whole ⊢
          rw [List.count_append]
          have cost : put.count '#' ≤ read.count '#' := by
            rcases kept with rfl | ⟨rfl, -⟩
            · exact Nat.zero_le _
            · exact Nat.le_refl _
          rcases List.append_eq_append_iff.mp whole with
            ⟨between, isRead, isClosing⟩ | ⟨between, rfl, rfl⟩
          · -- the sequence reaches into the end of the command
            rw [List.count_eq_zero.mpr
              (not_mem_expandWithin_of_closing isClosing fuel)]
            rcases kept with rfl | ⟨rfl, single⟩
            · exact Nat.zero_le _
            · have nonempty : front ≠ [] := by
                rintro rfl
                have starts := starts.2
                rw [List.nil_append, closing, startsSequence_quote] at starts
                cases starts
              have positive := List.length_pos_of_ne_nil nonempty
              rw [isRead, List.length_append] at single
              rw [isRead, List.eq_nil_of_length_eq_zero
                (show between.length = 0 by omega), List.append_nil]
              exact Nat.le_refl _
          · have most := (ih between).1
            rw [List.count_append]
            omega
        rw [starts.1, List.count_cons_self]
        exact ⟨by omega, fun _ _ _ _ => by omega⟩
      · next stays =>
        obtain ⟨most, fewer⟩ := ih front
        rw [List.count_cons, List.count_cons]
        refine ⟨by omega, fun before rest whole starts => ?_⟩
        cases before with
        | nil =>
          obtain ⟨rfl, rfl⟩ := List.cons.inj whole
          exact absurd ⟨rfl, starts⟩ stays
        | cons other before =>
          have fewer := fewer before rest (List.cons.inj whole).2 starts
          omega

/-- A parenthesis that closes too much cuts the path. -/
theorem exists_cut {depth : Nat} {front : Text}
    (closes : parenDepth depth front = none) (back : Text) :
    ∃ inside behind found, splitParen depth (front ++ back) =
      some (inside, found) ∧ front = inside ++ ')' :: behind := by
  fun_induction parenDepth depth front with
  | case1 => cases closes
  | case2 rest => exact ⟨[], rest, rest ++ back, rfl, rfl⟩
  | case3 depth rest ih | case4 depth rest ih =>
    obtain ⟨inside, behind, found, split_, rfl⟩ := ih closes
    refine ⟨_ :: inside, behind, found, ?_, rfl⟩
    rw [List.cons_append, splitParen, split_]
    rfl
  | case5 depth char rest notFirst notLater notOpen ih =>
    obtain ⟨inside, behind, found, split_, rfl⟩ := ih closes
    refine ⟨char :: inside, behind, found, ?_, rfl⟩
    rw [List.cons_append, splitParen, split_]
    · rfl
    all_goals assumption

theorem noConversion_of_statusWord {path : Text} {options : Environment}
    (hands : statusWord bareTmux options path = some path) :
    '%' ∉ path := by
  intro member
  have inText : '%' ∈ '#' :: '(' ::
      (quote :: escaped path ++ closing ++ [')']) := by
    have isIn : '%' ∈ escaped path := by
      rw [← List.count_pos_iff, count_escaped (by decide) (by decide)]
      exact List.count_pos_iff.mpr member
    simp [isIn]
  have nothing : bareTmux.strftime ('#' :: '(' ::
      (quote :: escaped path ++ closing ++ [')'])) = [] :=
    if_pos inText
  rw [statusWord_eq, handedCommand, nothing] at hands
  cases hands

theorem leftAlone_of_statusWord {path : Text} {options : Environment}
    (hands : statusWord bareTmux options path = some path) :
    LeftAlone path := by
  have noConversion := noConversion_of_statusWord hands
  rw [statusWord_eq, handedCommand_quoted _ noConversion] at hands
  have isWithin {command : Text}
      (isWord : (readWord false command).map Prod.fst = some path) :
      path.Sublist command := by
    obtain ⟨found, isFound, rfl⟩ := Option.map_eq_some_iff.mp isWord
    exact sublist_of_readWord isFound
  have depth (back : Text) : parenDepth 0 (quote :: escaped path ++ back) =
      (parenDepth 0 path).bind (parenDepth · back) := by
    rw [parenDepth_append, ← parenDepth_escaped 0 path]
    rfl
  cases parens : parenDepth 0 path with
  | none =>
    obtain ⟨inside, behind, found, split_, cut⟩ := exists_cut
      (show parenDepth 0 (quote :: escaped path) = none from
        (parenDepth_escaped 0 path).trans parens) (closing ++ [')'])
    rw [List.append_assoc, split_] at hands
    have fewer := ((isWithin hands).trans
      (sublist_expandWithin _ inside)).count_le ')'
    have counted := congrArg (List.count ')') cut
    rw [List.count_cons_of_ne (by decide), List.count_append,
      count_escaped (by decide) (by decide), List.count_cons_self] at counted
    omega
  | some left =>
    have open_ : parenDepth 0 (quote :: escaped path ++ closing) =
        some left := by
      rw [depth, parens]
      exact parenDepth_closing left
    rw [splitParen_append 0 _ [')'] open_] at hands
    cases left with
    | succ left => cases hands
    | zero =>
      refine ⟨noConversion, parens, fun front rest whole => ?_⟩
      by_contra starts
      have isSplit : quote :: escaped path =
          quote :: escaped front ++ '#' :: escaped rest := by
        rw [whole]
        simp [escaped, replaceQuote, quote]
      have most := (isWithin hands).count_le '#'
      dsimp only at most
      rw [List.append_nil] at most
      have fewer := (count_expandWithin (quote :: escaped path ++ closing).length
        (quote :: escaped path)).2 _ _
        isSplit ((startsSequence_escaped rest _).trans
          (eq_true_of_ne_false starts))
      rw [List.count_cons_of_ne (by decide),
        count_escaped (by decide) (by decide)] at fewer
      exact Nat.lt_irrefl _ (Nat.lt_of_le_of_lt most fewer)

/--
A POSIX shell reads every quoted value.  PowerShell reads just the values
without the quotes of typography, and the status of a ticket session hands
just the paths to a shell in which tmux reads nothing.
-/
theorem quotedValues_survive_iff
    (native : Except Text Text) (shell : Option Text)
    (options : Environment) (value dashboard : Text) :
    (∀ name, normalizeShellName native shell = .ok name →
      ∃ quoted, shellQuoteFor native shell (some value) = .ok quoted ∧
        (name.argument quoted = some value ↔
          (name.isPowershell = true →
            ∀ char ∈ value, isCurly char = false))) ∧
    (verbatimArgument (powershellSingleQuote (some value)) = some value ↔
      ∀ char ∈ value, isCurly char = false) ∧
    ((∀ tmux, statusWord tmux options dashboard = some dashboard) ↔
      LeftAlone dashboard) := by
  refine ⟨fun name isName => ?_, verbatimArgument_doubled_iff value, ?_⟩
  · refine ⟨quoteFor name value, ?_, ?_⟩
    · rw [shellQuoteFor, isName]
      rfl
    · rw [quoteFor, Shell.argument]
      split
      · next isPowershell =>
        rw [verbatimArgument_doubled_iff]
        exact ⟨fun straight _ => straight, fun straight =>
          straight isPowershell⟩
      · next isPosix =>
        have read : onlyWord (quote :: (escaped value ++ [quote])) =
            some value := by
          show (readWord false (quote :: _)).bind _ = some value
          rw [readWord_quote, escaped, readWord_replaceQuote value rfl]
          rfl
        exact ⟨fun _ isPowershell => absurd isPowershell isPosix,
          fun _ => read⟩
  · exact ⟨fun hands => leftAlone_of_statusWord (hands bareTmux),
      fun alone tmux => alone.statusWord tmux options⟩

/-- PowerShell ends a string at an apostrophe of typography. -/
theorem curly_quote_ends_string :
    Shell.argument .pwsh (quoteFor .pwsh "it\u2019s".toList) ≠
        some "it\u2019s".toList ∧
      statusWord bareTmux [] "/opt/a##b/dashboard".toList =
        some "/opt/a#b/dashboard".toList := by
  decide

end DeveloperDashboard.Workspace.QuotedWords
