import DeveloperDashboard.Collector.LogRotation

namespace DeveloperDashboard.Collector

open Library Perl Config Session

/-!
# Entries found again

An entry is found again when its header line is the only one of its lines that
begins like a header, and is dated by the last time in its header line.
-/

def beginsEntry (line : Text) : Bool :=
  entryMark.isPrefixOf line

def imitatesHeader (output : Text) : Bool :=
  (output.splitOn '\n').any beginsEntry

/-- A line of a name after the first begins like a header. -/
def nameImitatesHeader (name : Text) : Bool :=
  ((name ++ [' ']).splitOn '\n').tail.any beginsEntry

def entryLines (name : Text) (entry : LogEntry) : List Text :=
  splitLineStarts (entryText name entry)

theorem beginsEntry_append (content back : Text) :
    beginsEntry (content ++ '\n' :: back) = beginsEntry content := by
  rw [Bool.eq_iff_iff]
  unfold beginsEntry
  rw [List.isPrefixOf_iff_prefix, List.isPrefixOf_iff_prefix]
  exact prefix_append_cons (by decide)

theorem any_beginsEntry_splitLineStarts (text : Text) :
    (splitLineStarts (text ++ ['\n'])).any beginsEntry =
      (text.splitOn '\n').any beginsEntry := by
  obtain ⟨lines, last, isLines, free, rfl⟩ := exists_lines_append text
  have split :
      splitLineStarts (lines.flatten ++ last ++ ['\n']) =
        lines ++ [last ++ ['\n']] := by
    have joined :
        lines.flatten ++ last ++ ['\n'] =
          (lines ++ [last ++ ['\n']]).flatten := by
      simp
    rw [joined]
    apply splitLineStarts_flatten
    intro line member
    rcases List.mem_append.mp member with front | isLast
    · exact isLines line front
    · exact ⟨last, free, List.mem_singleton.mp isLast⟩
  have marks :
      lines.any beginsEntry = (contents lines).any beginsEntry := by
    rw [contents, List.any_map, Bool.eq_iff_iff, List.any_eq_true,
      List.any_eq_true]
    refine exists_congr fun line => and_congr_right fun member => ?_
    obtain ⟨content, -, rfl⟩ := isLines line member
    rw [Function.comp_apply, List.dropLast_concat, beginsEntry_append]
  rw [split, splitOn_flatten_append isLines,
    List.splitOn_eq_singleton free, List.any_append, List.any_append, marks,
    List.any_cons, List.any_cons, beginsEntry_append]

theorem imitatesHeader_eq (output : Text) :
    imitatesHeader output =
      (splitLineStarts (withTrailingNewline output)).any beginsEntry := by
  unfold imitatesHeader withTrailingNewline
  split
  · next newline =>
      obtain ⟨front, rfl⟩ := List.getLast?_eq_some_iff.mp newline
      rw [any_beginsEntry_splitLineStarts, List.splitOn_append_cons_self,
        List.any_append]
      have empty : (([] : Text).splitOn '\n').any beginsEntry = false := by
        decide
      rw [empty, Bool.or_false]
  · exact (any_beginsEntry_splitLineStarts output).symm

theorem endsLine_withTrailingNewline (output : Text) :
    EndsLine (withTrailingNewline output) := by
  unfold withTrailingNewline
  split
  · next newline => exact List.getLast?_eq_some_iff.mp newline
  · exact ⟨output, rfl⟩

structure IsBlock (text : Text) (imitates : Bool) : Prop where
  ends : text = [] ∨ EndsLine text
  marks : (splitLineStarts text).any beginsEntry = imitates

theorem IsBlock.append {front back : Text} {first second : Bool}
    (isFront : IsBlock front first) (isBack : IsBlock back second) :
    IsBlock (front ++ back) (first || second) := by
  rcases isFront.ends with rfl | endsFront
  · have none_ : first = false := isFront.marks.symm
    rw [none_, List.nil_append, Bool.false_or]
    exact isBack
  · rcases isBack.ends with rfl | endsBack
    · have none_ : second = false := isBack.marks.symm
      rw [none_, List.append_nil, Bool.or_false]
      exact isFront
    · refine ⟨.inr ?_, ?_⟩
      · obtain ⟨text, rfl⟩ := endsBack
        exact ⟨front ++ text, (List.append_assoc _ _ _).symm⟩
      · rw [splitLineStarts_append endsFront endsBack, List.any_append,
          isFront.marks, isBack.marks]

variable {content : Text}

theorem isBlock_line (free : '\n' ∉ content)
    (plain : beginsEntry content = false) :
    IsBlock (content ++ ['\n']) false := by
  refine ⟨.inr ⟨content, rfl⟩, ?_⟩
  have single : splitLineStarts [content ++ ['\n']].flatten = _ :=
    splitLineStarts_flatten (by
      intro line member
      rw [List.mem_singleton] at member
      exact ⟨content, free, member⟩)
  rw [List.flatten_singleton] at single
  rw [single, List.any_cons, List.any_nil, Bool.or_false,
    beginsEntry_append, plain]

theorem isBlock_outputChunk {title : String} (free : '\n' ∉ title.toList)
    (plain : beginsEntry title.toList = false) (output : Option Text) :
    IsBlock (outputChunk title output)
      (imitatesHeader (output.getD [])) := by
  have empty : IsBlock [] (imitatesHeader []) :=
    ⟨.inl rfl, by decide⟩
  rcases output with _ | (_ | ⟨char, output⟩)
  · exact empty
  · exact empty
  · have first := isBlock_line free plain
    have second :
        IsBlock (withTrailingNewline (char :: output))
          (imitatesHeader (char :: output)) :=
      ⟨.inr (endsLine_withTrailingNewline _),
        (imitatesHeader_eq (char :: output)).symm⟩
    have both := first.append second
    rw [Bool.false_or] at both
    exact both

def entryBody (entry : LogEntry) : Text :=
  outputChunk "[stdout]" entry.stdout ++
    outputChunk "[stderr]" entry.stderr ++
      outputChunk "[error]" entry.error ++ ['\n']

def outputsImitateHeader (entry : LogEntry) : Bool :=
  imitatesHeader (entry.stdout.getD []) ||
    imitatesHeader (entry.stderr.getD []) ||
      imitatesHeader (entry.error.getD [])

theorem entryText_eq (name : Text) (entry : LogEntry) :
    entryText name entry = headerText name entry ++ entryBody entry := by
  unfold entryText entryBody
  simp only [List.append_assoc]

theorem isBlock_entryBody (entry : LogEntry) :
    IsBlock (entryBody entry) (outputsImitateHeader entry) := by
  have empty : IsBlock ([] ++ ['\n']) false :=
    isBlock_line List.not_mem_nil (by decide)
  have stdout :
      IsBlock (outputChunk "[stdout]" entry.stdout) _ :=
    isBlock_outputChunk (by decide) (by decide) entry.stdout
  have stderr :
      IsBlock (outputChunk "[stderr]" entry.stderr) _ :=
    isBlock_outputChunk (by decide) (by decide) entry.stderr
  have error :
      IsBlock (outputChunk "[error]" entry.error) _ :=
    isBlock_outputChunk (by decide) (by decide) entry.error
  have all := ((stdout.append stderr).append error).append empty
  rw [Bool.or_false] at all
  exact all

theorem endsLine_entryBody (entry : LogEntry) :
    EndsLine (entryBody entry) :=
  ⟨_, rfl⟩

theorem endsLine_entryText (name : Text) (entry : LogEntry) :
    EndsLine (entryText name entry) :=
  ⟨_, rfl⟩

def headerTail (time : Text) (entry : LogEntry) : Text :=
  time ++ (headerFields entry).flatMap (" | ".toList ++ ·) ++
    " ===".toList

variable {entry : LogEntry} {time : Text}

theorem headerText_eq (happened : entry.happenedAt = some time)
    (true_ : isTrue time = true) (name : Text) :
    headerText name entry =
      entryMark ++ (name ++ (" | @ ".toList ++ headerTail time entry)) ++
        ['\n'] := by
  have joined :
      ∀ (first : Text) (others : List Text),
        " | ".toList.intercalate (first :: others) =
          first ++ others.flatMap (" | ".toList ++ ·) := by
    intro first others
    induction others generalizing first with
    | nil => simp [List.intercalate]
    | cons next others ih =>
      rw [List.intercalate_cons_cons, ih next, List.flatMap_cons]
      simp only [List.append_assoc]
  unfold headerText headerTail
  simp only [happened, true_, if_true, List.cons_append, List.nil_append,
    joined, List.flatMap_cons]
  simp

/-- A text without newlines and without the sign before a time. -/
def IsPlain (text : Text) : Prop :=
  '\n' ∉ text ∧ '@' ∉ text

theorem IsPlain.append {front back : Text} (isFront : IsPlain front)
    (isBack : IsPlain back) : IsPlain (front ++ back) := by
  simp only [IsPlain, List.mem_append, not_or]
  exact ⟨⟨isFront.1, isBack.1⟩, isFront.2, isBack.2⟩

theorem isPlain_natRepr (number : Nat) :
    IsPlain (Nat.repr number).toList := by
  have digits :
      ∀ char ∈ (Nat.repr number).toList, char.isDigit = true := by
    intro char member
    rw [Nat.toList_repr] at member
    exact Nat.isDigit_of_mem_toDigits (by decide) (by decide) member
  constructor
  · intro member
    exact absurd (digits _ member) (by decide)
  · intro member
    exact absurd (digits _ member) (by decide)

theorem isPlain_exitCode (number : Int) :
    IsPlain (toString number).toList := by
  cases number with
  | ofNat number => exact isPlain_natRepr number
  | negSucc number =>
    have shape :
        (toString (Int.negSucc number)).toList =
          ['-'] ++ (Nat.repr (number + 1)).toList := by
      change ("-" ++ Nat.repr (number + 1)).toList = _
      rw [String.toList_append]
      rfl
    rw [shape]
    exact IsPlain.append ⟨by decide, by decide⟩ (isPlain_natRepr _)

theorem isPlain_headerFields (entry : LogEntry) :
    ∀ field ∈ headerFields entry, IsPlain field := by
  intro field member
  unfold headerFields at member
  rw [List.mem_append, List.mem_append] at member
  rcases member with (exitCode | timedOut) | source
  · cases code : entry.exitCode with
    | none => simp [code] at exitCode
    | some number =>
      simp only [code, List.mem_singleton] at exitCode
      rw [exitCode, String.toList_append]
      exact IsPlain.append ⟨by decide, by decide⟩
        (isPlain_exitCode number)
  · split at timedOut
    · rw [List.mem_singleton.mp timedOut]
      exact ⟨by decide, by decide⟩
    · contradiction
  · cases named : entry.source with
    | none => simp [named] at source
    | some kind =>
      simp only [named, List.mem_singleton] at source
      rw [source]
      cases kind with
      | loopError => exact ⟨by decide, by decide⟩
      | loopStopped => exact ⟨by decide, by decide⟩
      | watchdog => exact ⟨by decide, by decide⟩

theorem isPlain_flatMap {fields : List Text}
    (plain : ∀ field ∈ fields, IsPlain field) :
    IsPlain (fields.flatMap (" | ".toList ++ ·)) := by
  induction fields with
  | nil => exact ⟨List.not_mem_nil, List.not_mem_nil⟩
  | cons field rest ih =>
    rw [List.flatMap_cons]
    have bar : IsPlain " | ".toList := ⟨by decide, by decide⟩
    exact (bar.append (plain field List.mem_cons_self)).append
      (ih fun other member =>
        plain other (List.mem_cons_of_mem _ member))

def isStampChar (char : Char) : Bool :=
  isDigit char || char ∈ ['-', 'T', ':', '+', 'Z']

variable {text : Text}

theorem takeDigits_eq_some {count : Nat} {digits rest : Text}
    (taken : takeDigits count text = some (digits, rest)) :
    text.all isStampChar = rest.all isStampChar := by
  unfold takeDigits at taken
  split at taken
  · next right =>
      rw [Option.some.injEq, Prod.mk.injEq] at taken
      rw [Bool.and_eq_true, List.all_eq_true] at right
      rw [← List.take_append_drop count text, List.all_append, taken.2]
      have front : (text.take count).all isStampChar = true := by
        rw [List.all_eq_true]
        intro char member
        rw [isStampChar, right.2 char member, Bool.true_or]
      rw [front, Bool.true_and]
  · contradiction

theorem takeChar_eq_some {char : Char} {rest : Text}
    (taken : takeChar char text = some rest) :
    text = char :: rest := by
  cases text with
  | nil => contradiction
  | cons first others =>
    by_cases same : first = char
    · simp only [takeChar, same, if_true, Option.some.injEq] at taken
      rw [same, taken]
    · simp [takeChar, same] at taken

theorem all_isStampChar_of_matchZone {zone : Option ZoneOffset}
    (matched : matchZone text = some zone) :
    text.all isStampChar = true := by
  unfold matchZone at matched
  split at matched
  · decide
  · next sign rest _ =>
      split at matched
      · next signed =>
          split at matched
          · next hour behind took =>
              split at matched
              · next minute tookMinute =>
                  have front := takeDigits_eq_some took
                  have back := takeDigits_eq_some tookMinute
                  have signChar : isStampChar sign = true := by
                    rw [Bool.or_eq_true, decide_eq_true_eq,
                      decide_eq_true_eq] at signed
                    rcases signed with rfl | rfl
                    · decide
                    · decide
                  rw [List.all_cons, signChar, Bool.true_and, front]
                  cases colon : takeChar ':' behind with
                  | none =>
                    rw [colon] at back
                    exact back
                  | some others =>
                    rw [colon] at back
                    rw [takeChar_eq_some colon, List.all_cons]
                    exact back
              · contradiction
          · contradiction
      · contradiction
  · contradiction

variable {fields : IsoFields}

theorem all_isStampChar (matched : matchTimestamp text = some fields) :
    text.all isStampChar = true := by
  simp only [matchTimestamp, Option.bind_eq_bind, Option.bind_eq_some_iff,
    Option.pure_def] at matched
  obtain ⟨⟨_, atMonth⟩, year, atMonth', dash, ⟨_, atDay⟩, month, atDay',
    dashDay, ⟨_, atHour⟩, day, atHour', tee, ⟨_, atMinute⟩, hour,
    atMinute', colon, ⟨_, atSecond⟩, minute, atSecond', colonSecond,
    ⟨_, atZone⟩, second, zone, matchedZone, -⟩ := matched
  dsimp only at dash dashDay tee colon colonSecond matchedZone
  rw [takeDigits_eq_some year, takeChar_eq_some dash, List.all_cons,
    takeDigits_eq_some month, takeChar_eq_some dashDay, List.all_cons,
    takeDigits_eq_some day, takeChar_eq_some tee, List.all_cons,
    takeDigits_eq_some hour, takeChar_eq_some colon, List.all_cons,
    takeDigits_eq_some minute, takeChar_eq_some colonSecond, List.all_cons,
    takeDigits_eq_some second, all_isStampChar_of_matchZone matchedZone]
  decide

theorem isPlain_timestamp (matched : matchTimestamp text = some fields) :
    IsPlain text ∧ ' ' ∉ text := by
  have chars := List.all_eq_true.mp (all_isStampChar matched)
  refine ⟨⟨?_, ?_⟩, ?_⟩
  · exact fun member => absurd (chars _ member) (by decide)
  · exact fun member => absurd (chars _ member) (by decide)
  · exact fun member => absurd (chars _ member) (by decide)

theorem lastTimestamp_of_not_mem (free : '@' ∉ text) :
    lastTimestamp text = none := by
  induction text with
  | nil => rfl
  | cons char rest ih =>
    rw [List.mem_cons, not_or] at free
    rw [lastTimestamp, ih free.2, Option.none_or]
    unfold timestampHere
    dsimp only
    rw [if_neg]
    rw [Bool.and_eq_true, Bool.and_eq_true, List.isPrefixOf_iff_prefix]
    rintro ⟨⟨⟨behind, same⟩, -⟩, -⟩
    have isIn : '@' ∈ char :: rest := by
      rw [← same]
      simp
    rw [List.mem_cons] at isIn
    exact isIn.elim free.1 free.2

theorem lastTimestamp_append
    {back timestamp : Text} (last : lastTimestamp back = some timestamp)
    (front : Text) :
    lastTimestamp (front ++ back) = some timestamp := by
  induction front with
  | nil => exact last
  | cons char front ih =>
    rw [List.cons_append, lastTimestamp, ih, Option.some_or]

theorem isHeaderEnd_fields (fields : List Text) :
    isHeaderEnd
        (fields.flatMap (" | ".toList ++ ·) ++ " ===".toList) = true := by
  cases fields with
  | nil => decide
  | cons field rest =>
    have shape :
        (field :: rest).flatMap (" | ".toList ++ ·) ++ " ===".toList =
          " | ".toList ++
            (field ++ rest.flatMap (" | ".toList ++ ·) ++
              " ===".toList) := by
      simp only [List.flatMap_cons, List.append_assoc]
    have last :
        " ===".toList.isSuffixOf
            ((" | ".toList ++
              (field ++ rest.flatMap (" | ".toList ++ ·) ++
                " ===".toList)).drop 3) = true := by
      rw [List.isSuffixOf_iff_suffix]
      exact List.suffix_append _ _
    rw [shape, isHeaderEnd, last, Bool.and_true, Bool.or_eq_true]
    right
    rw [List.isPrefixOf_iff_prefix]
    exact List.prefix_append _ _

theorem lastTimestamp_header (matched : matchTimestamp time = some fields)
    (ascii : fields.isAscii = true) (front : Text) (entry : LogEntry) :
    lastTimestamp (front ++ (" | @ ".toList ++ headerTail time entry)) =
      some time := by
  apply lastTimestamp_append
  obtain ⟨plain, noSpace⟩ := isPlain_timestamp matched
  have plainTail : IsPlain (headerTail time entry) :=
    (plain.append (isPlain_flatMap (isPlain_headerFields entry))).append
      ⟨by decide, by decide⟩
  have ended :
      headerTail time entry =
        time ++
          ((headerFields entry).flatMap (" | ".toList ++ ·) ++
            " ===".toList) :=
    List.append_assoc _ _ _
  have isEnd := isHeaderEnd_fields (headerFields entry)
  obtain ⟨more, spaced⟩ :
      ∃ more,
        (headerFields entry).flatMap (" | ".toList ++ ·) ++
          " ===".toList = ' ' :: more := by
    cases headerFields entry with
    | nil => exact ⟨_, rfl⟩
    | cons field rest => exact ⟨_, rfl⟩
  rw [spaced] at ended isEnd
  have noSpaces : ∀ char ∈ time, decide (char ≠ ' ') = true := by
    intro char member
    rw [decide_eq_true_eq]
    exact fun same => noSpace (same ▸ member)
  have taken :
      (time ++ ' ' :: more).takeWhile (· ≠ ' ') = time := by
    rw [List.takeWhile_append_of_pos noSpaces]
    simp
  have left :
      (time ++ ' ' :: more).dropWhile (· ≠ ' ') = ' ' :: more := by
    rw [List.dropWhile_append_of_pos noSpaces]
    simp
  have here :
      timestampHere (" | @ ".toList ++ headerTail time entry) =
        some time := by
    have behind :
        (" | @ ".toList ++ headerTail time entry).drop 5 =
          time ++ ' ' :: more := by
      rw [ended]
      rfl
    unfold timestampHere
    dsimp only
    rw [behind, taken, left, isEnd, matched, Option.any_some, ascii]
    rfl
  have later :
      lastTimestamp (" @ ".toList ++ headerTail time entry) = none := by
    have none_ : lastTimestamp (' ' :: headerTail time entry) = none := by
      apply lastTimestamp_of_not_mem
      rw [List.mem_cons, not_or]
      exact ⟨by decide, plainTail.2⟩
    have first :
        lastTimestamp ('@' :: ' ' :: headerTail time entry) = none := by
      rw [lastTimestamp, none_]
      rfl
    change
      lastTimestamp (' ' :: '@' :: ' ' :: headerTail time entry) = none
    rw [lastTimestamp, first]
    rfl
  have bar :
      lastTimestamp ("| @ ".toList ++ headerTail time entry) = none := by
    change
      lastTimestamp ('|' :: (" @ ".toList ++ headerTail time entry)) = none
    rw [lastTimestamp, later]
    rfl
  change
    lastTimestamp (' ' :: ("| @ ".toList ++ headerTail time entry)) =
      some time
  rw [lastTimestamp, bar, Option.none_or]
  exact here

def nameLine (name : Text) : Text :=
  name.takeWhile (· ≠ '\n')

structure IsHeader (name : Text) (entry : LogEntry) (first rest : Text) :
    Prop where
  line : IsLine first
  marked : beginsEntry first = true
  text : headerText name entry = first ++ rest
  block : IsBlock rest (nameImitatesHeader name)

theorem isLine_append (free : '\n' ∉ content) :
    IsLine (content ++ ['\n']) :=
  ⟨content, free, rfl⟩

theorem beginsEntry_entryMark (back : Text) :
    beginsEntry (entryMark ++ back) = true := by
  rw [beginsEntry, List.isPrefixOf_iff_prefix]
  exact List.prefix_append _ _

theorem isPlain_headerTail
    (matched : matchTimestamp time = some fields) (entry : LogEntry) :
    IsPlain (headerTail time entry) :=
  ((isPlain_timestamp matched).1.append
      (isPlain_flatMap (isPlain_headerFields entry))).append
    ⟨by decide, by decide⟩

theorem isTrue_timestamp (matched : matchTimestamp time = some fields) :
    Perl.isTrue time = true := by
  rw [Perl.isTrue, decide_eq_true_eq]
  constructor
  · rintro rfl
    contradiction
  · rintro rfl
    contradiction

theorem isHeader_of_not_mem {name : Text}
    (happened : entry.happenedAt = some time)
    (matched : matchTimestamp time = some fields) (single : '\n' ∉ name) :
    IsHeader name entry
      (entryMark ++ (name ++ (" | @ ".toList ++ headerTail time entry)) ++
        ['\n']) [] := by
  have free := isPlain_headerTail matched entry
  refine ⟨isLine_append ?_, ?_, ?_, .inl rfl, ?_⟩
  · simp only [List.mem_append, not_or]
    exact ⟨by decide, single, by decide, free.1⟩
  · rw [List.append_assoc]
    exact beginsEntry_entryMark _
  · rw [List.append_nil]
    exact headerText_eq happened (isTrue_timestamp matched) name
  · have parts : (name ++ [' ']).splitOn '\n' = [name ++ [' ']] := by
      apply List.splitOn_eq_singleton
      rw [List.mem_append, not_or]
      exact ⟨single, by decide⟩
    rw [nameImitatesHeader, parts]
    rfl

theorem any_beginsEntry_append
    (front : Text) {back : Text} (free : '\n' ∉ back) :
    ((front ++ ' ' :: '|' :: back).splitOn '\n').any beginsEntry =
      ((front ++ [' ']).splitOn '\n').any beginsEntry := by
  obtain ⟨lines, last, isLines, freeLast, rfl⟩ := exists_lines_append front
  have wide : '\n' ∉ last ++ ' ' :: '|' :: back := by
    simp only [List.mem_append, List.mem_cons, not_or]
    exact ⟨freeLast, by decide, by decide, free⟩
  have narrow : '\n' ∉ last ++ [' '] := by
    simp only [List.mem_append, List.mem_singleton, not_or]
    exact ⟨freeLast, by decide⟩
  have same :
      beginsEntry (last ++ ' ' :: '|' :: back) =
        beginsEntry (last ++ [' ']) := by
    rw [Bool.eq_iff_iff]
    unfold beginsEntry
    rw [List.isPrefixOf_iff_prefix, List.isPrefixOf_iff_prefix]
    have cut :
        last ++ ' ' :: '|' :: back = (last ++ [' ']) ++ '|' :: back := by
      rw [List.append_assoc]
      rfl
    rw [cut]
    exact prefix_append_cons (by decide)
  rw [List.append_assoc, List.append_assoc, splitOn_flatten_append isLines,
    splitOn_flatten_append isLines, List.splitOn_eq_singleton wide,
    List.splitOn_eq_singleton narrow, List.any_append, List.any_append,
    List.any_cons, List.any_cons, same]

theorem isHeader_of_mem {name : Text}
    (happened : entry.happenedAt = some time)
    (matched : matchTimestamp time = some fields) (several : '\n' ∈ name) :
    ∃ rest, IsHeader name entry (entryMark ++ nameLine name ++ ['\n']) rest := by
  have free := isPlain_headerTail matched entry
  obtain ⟨more, freeFirst, parts⟩ := exists_first_line several
  have ends :
      EndsLine (more ++ (" | @ ".toList ++ headerTail time entry) ++ ['\n']) :=
    ⟨_, rfl⟩
  refine ⟨more ++ (" | @ ".toList ++ headerTail time entry) ++ ['\n'],
    isLine_append ?_, ?_, ?_, .inr ends, ?_⟩
  · rw [List.mem_append, not_or]
    exact ⟨by decide, freeFirst⟩
  · rw [List.append_assoc]
    exact beginsEntry_entryMark _
  · rw [headerText_eq happened (isTrue_timestamp matched) name]
    conv_lhs => rw [parts]
    simp only [nameLine, List.append_assoc, List.cons_append,
      List.nil_append]
  · have imitates :
        nameImitatesHeader name =
          ((more ++ [' ']).splitOn '\n').any beginsEntry := by
      rw [nameImitatesHeader]
      conv_lhs => rw [parts]
      rw [List.append_assoc, List.cons_append,
        List.splitOn_append_cons_self_of_not_mem freeFirst, List.tail_cons]
    have barred :
        more ++ (" | @ ".toList ++ headerTail time entry) =
          more ++ ' ' :: '|' :: (" @ ".toList ++ headerTail time entry) :=
      rfl
    rw [any_beginsEntry_splitLineStarts, imitates, barred]
    apply any_beginsEntry_append
    rw [List.mem_append, not_or]
    exact ⟨by decide, free.1⟩

theorem IsHeader.entryLines_eq {name first rest : Text}
    (header : IsHeader name entry first rest) :
    entryLines name entry =
      first :: splitLineStarts (rest ++ entryBody entry) := by
  have endsFirst : EndsLine first := by
    obtain ⟨content, -, rfl⟩ := header.line
    exact ⟨content, rfl⟩
  have endsBody : EndsLine (rest ++ entryBody entry) := by
    obtain ⟨body, same⟩ := endsLine_entryBody entry
    exact ⟨rest ++ body, by rw [same, List.append_assoc]⟩
  have single : splitLineStarts [first].flatten = [first] :=
    splitLineStarts_flatten (by
      intro line member
      rw [List.mem_singleton] at member
      exact member ▸ header.line)
  rw [List.flatten_singleton] at single
  rw [entryLines, entryText_eq, header.text, List.append_assoc,
    splitLineStarts_append endsFirst endsBody, single]
  rfl

theorem IsHeader.isFrame_iff {name first rest : Text}
    (header : IsHeader name entry first rest) :
    Framed.IsFrame beginsEntry (entryLines name entry) ↔
      nameImitatesHeader name = false ∧ outputsImitateHeader entry = false := by
  have marks := (header.block.append (isBlock_entryBody entry)).marks
  rw [header.entryLines_eq, Framed.IsFrame, ← Bool.or_eq_false_iff, ← marks,
    List.any_eq_false]
  constructor
  · exact fun both line member => Bool.not_eq_true _ ▸ both.2 line member
  · exact fun quiet =>
      ⟨header.marked, fun line member =>
        (Bool.not_eq_true _).mp (quiet line member)⟩

def LogEntry.instant (entry : LogEntry) : Option Int :=
  entry.happenedAt.bind instantOf

def LogEntry.year (entry : LogEntry) : Nat :=
  ((entry.happenedAt.bind matchTimestamp).map fun fields =>
    stringNumber fields.year).getD 0

/--
The header line has the time of the entry: its year is one that `timegm` keeps,
or the first of several lines of the name has a time of the same instant.
-/
def DatesEntry (thisYear : Nat) (name : Text) (entry : LogEntry) : Prop :=
  if '\n' ∈ name then
    ∃ instant,
      entry.instant = some instant ∧
        entryTimestampEpoch thisYear name
          (entryMark ++ nameLine name ++ ['\n']) = .ok instant
  else 1000 ≤ entry.year

theorem headerTimestamp_line (free : '\n' ∉ content) (rest : Text) :
    headerTimestamp (content ++ '\n' :: rest) =
      if beginsEntry content then
        lastTimestamp (content.drop entryMark.length)
      else none := by
  have taken :
      (content ++ '\n' :: rest).takeWhile (· ≠ '\n') = content := by
    rw [List.takeWhile_append_of_pos]
    · simp
    · intro char member
      rw [decide_eq_true_eq]
      exact fun same => free (same ▸ member)
  have newline : '\n' ∈ content ++ '\n' :: rest := by
    simp
  unfold headerTimestamp
  dsimp only
  rw [taken, decide_eq_true newline, Bool.and_true]
  rfl

theorem IsHeader.entryTimestampEpoch_eq {name first rest : Text}
    (header : IsHeader name entry first rest) (thisYear : Nat) :
    entryTimestampEpoch thisYear name (entryText name entry) =
      entryTimestampEpoch thisYear name first := by
  obtain ⟨content, free, rfl⟩ := header.line
  have whole :
      headerTimestamp (entryText name entry) =
        headerTimestamp (content ++ ['\n']) := by
    rw [entryText_eq, header.text, List.append_assoc, List.append_assoc,
      List.singleton_append, headerTimestamp_line free,
      headerTimestamp_line free]
  unfold entryTimestampEpoch
  rw [whole]

/-- The header of a name of one line is read at the time of the entry. -/
theorem entryTimestampEpoch_single {name : Text}
    (happened : entry.happenedAt = some time)
    (matched : matchTimestamp time = some fields)
    (ascii : fields.isAscii = true) (single : '\n' ∉ name)
    (thisYear : Nat) (instant : Int) :
    entryTimestampEpoch thisYear name (entryText name entry) =
        .ok instant ↔
      fieldsToEpoch thisYear fields = .ok instant := by
  have header := isHeader_of_not_mem happened matched single
  have free := isPlain_headerTail matched entry
  have oneLine :
      '\n' ∉
        entryMark ++ (name ++ (" | @ ".toList ++ headerTail time entry)) := by
    simp only [List.mem_append, not_or]
    exact ⟨by decide, single, by decide, free.1⟩
  have found :
      headerTimestamp
          (entryMark ++ (name ++ (" | @ ".toList ++ headerTail time entry)) ++
            ['\n']) =
        some time := by
    rw [headerTimestamp_line oneLine, beginsEntry_entryMark, if_pos rfl,
      List.drop_left, lastTimestamp_header matched ascii]
  have read :
      iso8601ToEpoch thisYear .die (some time) =
        fieldsToEpoch thisYear fields := by
    rw [iso8601ToEpoch, Option.bind_some, matched]
  rw [header.entryTimestampEpoch_eq, entryTimestampEpoch, found]
  dsimp only
  rw [read]
  cases fieldsToEpoch thisYear fields with
  | ok epoch => exact Iff.rfl
  | error message =>
    constructor
    · intro same
      contradiction
    · intro same
      contradiction

theorem exists_fields_of_instant {instant : Int}
    (dated : entry.instant = some instant) :
    ∃ time fields,
      entry.happenedAt = some time ∧ matchTimestamp time = some fields ∧
        (fields.isAscii = true ∧
          fields.InRange (stringNumber fields.year) ∧
            offsetInRange fields.offset = true) ∧
          fields.seconds (stringNumber fields.year) -
            offsetSeconds fields.offset = instant := by
  obtain ⟨time, happened, read⟩ := Option.bind_eq_some_iff.mp dated
  cases matched : matchTimestamp time with
  | none => simp [instantOf, matched] at read
  | some fields =>
    exact ⟨time, fields, happened, matched,
      (instantOf_of_match matched instant).mp read⟩

theorem exists_isHeader {instant : Int}
    (dated : entry.instant = some instant) (name : Text) :
    ∃ first rest, IsHeader name entry first rest := by
  obtain ⟨time, fields, happened, matched, -⟩ :=
    exists_fields_of_instant dated
  by_cases several : '\n' ∈ name
  · obtain ⟨rest, header⟩ := isHeader_of_mem happened matched several
    exact ⟨_, rest, header⟩
  · exact ⟨_, _, isHeader_of_not_mem happened matched several⟩

theorem entryTimestampEpoch_eq_iff {instant : Int}
    (dated : entry.instant = some instant) (thisYear : Nat) (name : Text) :
    entryTimestampEpoch thisYear name (entryText name entry) =
        .ok instant ↔
      DatesEntry thisYear name entry := by
  obtain ⟨time, fields, happened, matched, plain, same⟩ :=
    exists_fields_of_instant dated
  unfold DatesEntry
  split
  · next several =>
      obtain ⟨rest, header⟩ := isHeader_of_mem happened matched several
      rw [header.entryTimestampEpoch_eq, dated]
      constructor
      · exact fun read => ⟨instant, rfl, read⟩
      · rintro ⟨other, isSame, read⟩
        rw [Option.some.inj isSame]
        exact read
  · next single =>
      have year : entry.year = stringNumber fields.year := by
        rw [LogEntry.year, happened, Option.bind_some, matched]
        rfl
      rw [entryTimestampEpoch_single happened matched plain.1 single, year,
        ← same]
      exact fieldsToEpoch_eq_iff plain.2.1 thisYear

end DeveloperDashboard.Collector
