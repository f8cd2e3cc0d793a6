import DeveloperDashboard.Collector.LogEntryText

namespace DeveloperDashboard.Collector

open Library Perl Config Session

/-!
# Rotated logs

Rotation keeps whole entries as long as each is a frame that is dated by its
header.  An output line that begins like a header starts an entry of its own,
which the line rule may keep without the rest and the age rule cannot date.
-/

def logText (name : Text) (entries : List LogEntry) : Text :=
  entries.flatMap (entryText name)

def retainedByAge
    (rules : RotationRules) (now : Int) (entries : List LogEntry) :
    List LogEntry :=
  match rotationRetentionSeconds rules with
  | none => entries
  | some retention =>
    entries.filter fun entry =>
      entry.instant.any fun instant => now - retention ≤ instant

/-- The longest suffix of the entries with at most so many lines. -/
structure LongestWithin
    (name : Text) (lines : Nat) (entries kept : List LogEntry) : Prop where
  suffix : kept <:+ entries
  within : (logText name kept).count '\n' ≤ lines
  longest :
    ∀ other, other <:+ entries → (logText name other).count '\n' ≤ lines →
      other.length ≤ kept.length

def Retained (name : Text) (rules : RotationRules) (now : Int)
    (entries kept : List LogEntry) : Prop :=
  match rules.lookup .lines with
  | none => kept = retainedByAge rules now entries
  | some lines =>
    LongestWithin name lines (retainedByAge rules now entries) kept

/--
Every rotation of the appended entries succeeds, leaves those that its rules
retain, and changes nothing the second time.
-/
def RotationKeepsEntries
    (thisYear : Nat) (name : Text) (entries : List LogEntry) : Prop :=
  ∀ log, appendLogEntries name none entries = .ok log →
    ∀ rotation rules now, normalizeRotation name rotation = .ok rules →
      ∃ report afterwards kept,
        rotateLog thisYear name rotation now false log =
            .ok (report, afterwards) ∧
          Retained name rules now entries kept ∧
            afterwards.getD [] = logText name kept ∧
              rotateLog thisYear name rotation now false afterwards =
                .ok (none, afterwards)

/-- No line of the entry imitates a header, and its header dates it. -/
structure KeepsWhole (thisYear : Nat) (name : Text) (entry : LogEntry) :
    Prop where
  outputs : outputsImitateHeader entry = false
  header : nameImitatesHeader name = false
  dated : DatesEntry thisYear name entry

def logLines (name : Text) (entries : List LogEntry) : List Text :=
  entries.flatMap (entryLines name)

def entrySize (name : Text) (entry : LogEntry) : Nat :=
  (entryLines name entry).length

theorem isLine_of_mem_logLines {name : Text} {entries : List LogEntry} :
    ∀ line ∈ logLines name entries, IsLine line := by
  intro line member
  obtain ⟨entry, -, isIn⟩ := List.mem_flatMap.mp member
  exact (endsLine_entryText name entry).isLine_of_mem line isIn

theorem flatten_logLines (name : Text) (entries : List LogEntry) :
    (logLines name entries).flatten = logText name entries := by
  induction entries with
  | nil => rfl
  | cons entry rest ih =>
    unfold logLines logText at ih ⊢
    rw [List.flatMap_cons, List.flatMap_cons, List.flatten_append,
      ih, entryLines, flatten_splitLineStarts]

theorem length_logLines (name : Text) (entries : List LogEntry) :
    (logLines name entries).length =
      Framed.total (entrySize name) entries :=
  Framed.length_flatMap_eq_total _ _

theorem count_logText (name : Text) (entries : List LogEntry) :
    (logText name entries).count '\n' =
      Framed.total (entrySize name) entries := by
  rw [← flatten_logLines, count_flatten_lines isLine_of_mem_logLines,
    length_logLines]

theorem entrySize_pos (name : Text) (entry : LogEntry) :
    0 < entrySize name entry := by
  rw [entrySize, List.length_pos_iff, entryLines, splitLineStarts,
    List.splitBy_ne_nil]
  obtain ⟨front, shape⟩ := endsLine_entryText name entry
  rw [shape]
  exact List.append_ne_nil_of_right_ne_nil _ (List.cons_ne_nil _ _)

theorem longestWithin_suffixWithin
    (name : Text) (lines : Nat) (entries : List LogEntry) :
    LongestWithin name lines entries
      (Framed.suffixWithin (entrySize name) lines entries) := by
  refine ⟨Framed.suffixWithin_suffix _ _ _, ?_, ?_⟩
  · rw [count_logText]
    exact Framed.total_suffixWithin_le _ _ _
  · intro other suffix within
    rw [count_logText] at within
    exact Framed.length_le_suffixWithin suffix within

variable {lines : List Text}

theorem splitLogEntries_flatten (isLines : ∀ line ∈ lines, IsLine line) :
    splitLogEntries lines.flatten =
      (Framed.frames beginsEntry lines).map List.flatten := by
  rw [splitLogEntries, splitLineStarts_flatten isLines]
  rfl

variable {name : Text} {entries : List LogEntry}

theorem splitLogEntries_logText
    (framed :
      ∀ entry ∈ entries,
        Framed.IsFrame beginsEntry (entryLines name entry)) :
    splitLogEntries (logText name entries) =
      entries.map (entryText name) := by
  rw [← flatten_logLines, splitLogEntries_flatten isLine_of_mem_logLines,
    logLines, Framed.frames_flatMap framed, List.map_map]
  apply List.map_congr_left
  intro entry _
  exact flatten_splitLineStarts _

theorem beginsEntry_flatten (isLines : ∀ line ∈ lines, IsLine line) :
    beginsEntry lines.flatten = lines.head?.any beginsEntry := by
  cases lines with
  | nil => rfl
  | cons line rest =>
    obtain ⟨content, -, rfl⟩ := isLines line List.mem_cons_self
    rw [List.flatten_cons, List.append_assoc, List.singleton_append,
      beginsEntry_append, List.head?_cons, Option.any_some,
      beginsEntry_append]

/-- What the line rule cuts off some lines. -/
theorem trimLogByLines_flatten (isLines : ∀ line ∈ lines, IsLine line)
    (nonempty : lines ≠ []) (bound : Nat) :
    trimLogByLines lines.flatten bound =
      if lines.length ≤ bound then lines.flatten
      else
        realignToEntryBoundary lines.flatten
          (if bound = 0 then ['\n']
          else (lines.drop (lines.length - bound)).flatten) := by
  have joined := joinLines_contents isLines nonempty
  have ends : lines.flatten.getLast? = some '\n' := by
    rw [← joined, List.getLast?_concat]
  have parts : lines.flatten.splitOn '\n' = contents lines ++ [[]] := by
    have behind := splitOn_flatten_append isLines []
    rw [List.append_nil] at behind
    exact behind
  have text : lines.flatten ≠ [] := by
    rw [← joined]
    exact List.append_ne_nil_of_right_ne_nil _ (List.cons_ne_nil _ _)
  have length : (contents lines).length = lines.length := by
    rw [contents, List.length_map]
  unfold trimLogByLines
  dsimp only
  rw [if_neg text, if_pos ends, if_pos ends, parts, List.dropLast_concat,
    length]
  by_cases fits : lines.length ≤ bound
  · rw [if_pos fits, if_pos fits]
  · rw [if_neg fits, if_neg fits]
    congr 1
    by_cases zero : bound = 0
    · rw [if_pos zero, zero, Nat.sub_zero, ← length, List.drop_length]
      rfl
    · have left : lines.drop (lines.length - bound) ≠ [] := by
        rw [ne_eq, List.drop_eq_nil_iff]
        omega
      have isLeft :
          ∀ line ∈ lines.drop (lines.length - bound), IsLine line :=
        fun line member => isLines line (List.mem_of_mem_drop member)
      rw [if_neg zero, ← joinLines_contents isLeft left, contents, contents,
        List.map_drop]

theorem realignToEntryBoundary_flatten
    {original : Text} (header : beginsEntry original = true)
    (isLines : ∀ line ∈ lines, IsLine line) :
    realignToEntryBoundary original lines.flatten =
      (Framed.realign beginsEntry lines).flatten := by
  unfold realignToEntryBoundary Framed.realign
  change
    (if beginsEntry lines.flatten = true then lines.flatten
      else if ¬ beginsEntry original = true then lines.flatten
      else (splitLogEntries lines.flatten).tail.flatten) = _
  rw [beginsEntry_flatten isLines, if_neg (not_not_intro header)]
  split
  · rfl
  · rw [splitLogEntries_flatten isLines, ← List.map_tail,
      List.flatten_flatten]

/-- The line rule keeps the longest suffix of frames that it can. -/
theorem trimLogByLines_logText
    (framed :
      ∀ entry ∈ entries,
        Framed.IsFrame beginsEntry (entryLines name entry))
    (bound : Nat) :
    trimLogByLines (logText name entries) bound =
      logText name
        (Framed.suffixWithin (entrySize name) bound entries) := by
  by_cases nonempty : logLines name entries = []
  · cases entries with
    | nil => rfl
    | cons entry rest =>
      have size := length_logLines name (entry :: rest)
      rw [nonempty, Framed.total, List.map_cons, List.sum_cons] at size
      have positive := entrySize_pos name entry
      rw [List.length_nil] at size
      omega
  · have isLines := @isLine_of_mem_logLines name entries
    have length := length_logLines name entries
    have header : beginsEntry (logLines name entries).flatten = true := by
      rw [beginsEntry_flatten isLines]
      obtain ⟨line, rest, shape⟩ := List.exists_cons_of_ne_nil nonempty
      have marked := Framed.head_of_frames framed
      change
        ∀ item ∈ (logLines name entries).head?, beginsEntry item = true
        at marked
      rw [shape] at marked ⊢
      exact marked line rfl
    rw [← flatten_logLines, trimLogByLines_flatten isLines nonempty, length]
    split
    · next fits =>
        rw [Framed.suffixWithin_of_le fits, flatten_logLines]
    · next exceeded =>
        by_cases zero : bound = 0
        · have none_ :
              Framed.suffixWithin (entrySize name) bound entries = [] := by
            have least :=
              Framed.total_suffixWithin_le (entrySize name) bound entries
            cases kept :
              Framed.suffixWithin (entrySize name) bound entries with
            | nil => rfl
            | cons entry rest =>
              rw [kept, Framed.total, List.map_cons, List.sum_cons]
                at least
              have positive := entrySize_pos name entry
              omega
          have isNewline : ∀ line ∈ [['\n']], IsLine line := by
            intro line member
            exact ⟨[], List.not_mem_nil, List.mem_singleton.mp member⟩
          have realigned :=
            realignToEntryBoundary_flatten header isNewline
          rw [if_pos zero, none_]
          exact realigned
        · have short :
              Framed.total (entrySize name) entries - bound <
                (logLines name entries).length := by
            omega
          have kept := Framed.realign_drop framed short
          have left :
              (entries.flatMap (entryLines name)).length -
                  (Framed.total (entrySize name) entries - bound) =
                bound := by
            change (logLines name entries).length - _ = _
            omega
          rw [left] at kept
          rw [if_neg zero,
            realignToEntryBoundary_flatten header fun line member =>
              isLines line (List.mem_of_mem_drop member)]
          change
            Framed.realign beginsEntry
              ((logLines name entries).drop
                (Framed.total (entrySize name) entries - bound)) =
              logLines name
                (Framed.suffixWithin (entrySize name) bound entries)
            at kept
          rw [kept, flatten_logLines]

def entriesFrom (cutoff : Int) (entries : List LogEntry) :
    List LogEntry :=
  entries.filter fun entry =>
    entry.instant.any fun instant => cutoff ≤ instant

variable {thisYear : Nat}

theorem keepFrom_map (dated : ∀ entry ∈ entries, entry.instant.isSome = true)
    (dates : ∀ entry ∈ entries, DatesEntry thisYear name entry)
    (cutoff : Int) :
    keepFrom thisYear name cutoff (entries.map (entryText name)) =
      .ok ((entriesFrom cutoff entries).map (entryText name)) := by
  induction entries with
  | nil => rfl
  | cons entry rest ih =>
    obtain ⟨instant, isDated⟩ :=
      Option.isSome_iff_exists.mp (dated entry List.mem_cons_self)
    have read :=
      (entryTimestampEpoch_eq_iff isDated thisYear name).mpr
        (dates entry List.mem_cons_self)
    have keptRest :=
      ih
        (fun other member => dated other (List.mem_cons_of_mem _ member))
        (fun other member => dates other (List.mem_cons_of_mem _ member))
    rw [List.map_cons, keepFrom, read, keptRest]
    change
      Except.ok
        (if cutoff ≤ instant then
          entryText name entry ::
            (entriesFrom cutoff rest).map (entryText name)
        else (entriesFrom cutoff rest).map (entryText name)) = _
    rw [Except.ok.injEq, entriesFrom, entriesFrom, List.filter_cons,
      isDated, Option.any_some]
    by_cases from_ : cutoff ≤ instant
    · rw [if_pos from_, if_pos (decide_eq_true from_), List.map_cons]
    · rw [if_neg from_, if_neg (by simpa using from_)]

theorem flatten_map_entryText (name : Text) (entries : List LogEntry) :
    (entries.map (entryText name)).flatten = logText name entries :=
  List.flatMap_def.symm

theorem trimLogByAge_logText
    (framed :
      ∀ entry ∈ entries,
        Framed.IsFrame beginsEntry (entryLines name entry))
    (dated : ∀ entry ∈ entries, entry.instant.isSome = true)
    (dates : ∀ entry ∈ entries, DatesEntry thisYear name entry)
    (retention : Nat) (now : Int) :
    trimLogByAge thisYear name (logText name entries) retention now =
      .ok (logText name (entriesFrom (now - retention) entries)) := by
  unfold trimLogByAge
  split
  · next empty =>
      cases entries with
      | nil => rw [empty]; rfl
      | cons entry rest =>
        obtain ⟨front, shape⟩ := endsLine_entryText name entry
        rw [logText, List.flatMap_cons, shape] at empty
        simp at empty
  · rw [splitLogEntries_logText framed, keepFrom_map dated dates]
    exact congrArg Except.ok (flatten_map_entryText _ _)

def keptByLines
    (name : Text) (rules : RotationRules) (entries : List LogEntry) :
    List LogEntry :=
  match rules.lookup .lines with
  | none => entries
  | some lines => Framed.suffixWithin (entrySize name) lines entries

def rotatedEntries (name : Text) (rules : RotationRules) (now : Int)
    (entries : List LogEntry) : List LogEntry :=
  keptByLines name rules (retainedByAge rules now entries)

theorem retained_rotatedEntries
    (name : Text) (rules : RotationRules) (now : Int)
    (entries : List LogEntry) :
    Retained name rules now entries
      (rotatedEntries name rules now entries) := by
  unfold Retained rotatedEntries keptByLines
  cases rules.lookup .lines with
  | none => rfl
  | some lines => exact longestWithin_suffixWithin _ _ _

variable {rules : RotationRules}

theorem mem_of_mem_retainedByAge {now : Int} :
    ∀ entry ∈ retainedByAge rules now entries, entry ∈ entries := by
  intro entry member
  unfold retainedByAge at member
  split at member
  · exact member
  · exact List.mem_of_mem_filter member

theorem retainedByAge_of_forall_mem {now : Int} {kept : List LogEntry}
    (among : ∀ entry ∈ kept, entry ∈ retainedByAge rules now entries) :
    retainedByAge rules now kept = kept := by
  unfold retainedByAge at among ⊢
  split
  · rfl
  · next retention found =>
      rw [found] at among
      rw [List.filter_eq_self]
      exact fun entry member => (List.mem_filter.mp (among entry member)).2

theorem mem_retainedByAge_of_mem_rotatedEntries
    {name : Text} {rules : RotationRules} {now : Int}
    {entries : List LogEntry} :
    ∀ entry ∈ rotatedEntries name rules now entries,
      entry ∈ retainedByAge rules now entries := by
  intro entry member
  unfold rotatedEntries keptByLines at member
  split at member
  · exact member
  · exact (Framed.suffixWithin_suffix _ _ _).subset member

/-- A second rotation retains everything. -/
theorem rotatedEntries_rotatedEntries
    (name : Text) (rules : RotationRules) (now : Int)
    (entries : List LogEntry) :
    rotatedEntries name rules now (rotatedEntries name rules now entries) =
      rotatedEntries name rules now entries := by
  have aged :=
    retainedByAge_of_forall_mem
      (@mem_retainedByAge_of_mem_rotatedEntries name rules now entries)
  have again :
      rotatedEntries name rules now
          (rotatedEntries name rules now entries) =
        keptByLines name rules
          (retainedByAge rules now
            (rotatedEntries name rules now entries)) :=
    rfl
  rw [again, aged, rotatedEntries]
  unfold keptByLines
  split
  · rfl
  · exact Framed.suffixWithin_of_le
      (Framed.total_suffixWithin_le (entrySize name) _ _)

theorem applyLogRotation_logText
    (framed :
      ∀ entry ∈ entries,
        Framed.IsFrame beginsEntry (entryLines name entry))
    (dated : ∀ entry ∈ entries, entry.instant.isSome = true)
    (dates : ∀ entry ∈ entries, DatesEntry thisYear name entry)
    (rules : RotationRules) (now : Int) :
    applyLogRotation thisYear name (logText name entries) rules now =
      .ok (logText name (rotatedEntries name rules now entries)) := by
  have aged :
      applyAgeRule thisYear name (logText name entries) rules now =
        .ok (logText name (retainedByAge rules now entries)) := by
    unfold applyAgeRule retainedByAge
    cases rotationRetentionSeconds rules with
    | none => rfl
    | some retention =>
      exact trimLogByAge_logText framed dated dates retention now
  rw [applyLogRotation, aged]
  change Except.ok (applyLineRule _ _) = _
  rw [Except.ok.injEq]
  unfold applyLineRule rotatedEntries keptByLines
  cases rules.lookup .lines with
  | none => rfl
  | some lines =>
    exact trimLogByLines_logText
      (fun entry member =>
        framed entry (mem_of_mem_retainedByAge entry member)) lines

theorem appendLogEntries_eq (named : Perl.isTrue name = true)
    (log : Option Text) (entries : List LogEntry) :
    appendLogEntries name log entries =
      .ok
        (if entries = [] then log
        else some (log.getD [] ++ logText name entries)) := by
  induction entries generalizing log with
  | nil => rfl
  | cons entry rest ih =>
    rw [appendLogEntries, appendLogEntry, formatLogEntry, if_pos named]
    change
      appendLogEntries name (some (log.getD [] ++ entryText name entry))
          rest = _
    rw [ih, if_neg (List.cons_ne_nil _ _)]
    cases rest with
    | nil => simp [logText]
    | cons next others => simp [logText]

theorem appendLogEntries_cons (named : Perl.isTrue name = true)
    (nonempty : entries ≠ []) :
    appendLogEntries name none entries =
      .ok (some (logText name entries)) := by
  rw [appendLogEntries_eq named, if_neg nonempty]
  rfl

theorem ne_nil_of_isTrue (named : Perl.isTrue name = true) :
    name ≠ [] :=
  (of_decide_eq_true named).1

variable {rotation : Option JsonValue}

theorem rotateLog_some (thisYear : Nat) (named : Perl.isTrue name = true)
    (normal : normalizeRotation name rotation = .ok rules)
    (original : Text) (now : Int) :
    rotateLog thisYear name rotation now false (some original) =
      (applyLogRotation thisYear name original rules now).map fun rotated =>
        (if rotated = original then none
          else
            some
              ⟨name, rotationStrategy rules, original.length, rotated.length,
                false⟩,
          some rotated) := by
  rw [rotateLog, if_neg (ne_nil_of_isTrue named), normal]
  change (if rules = [] then _ else if ¬ _ then _ else _) = _
  by_cases empty : rules = []
  · rw [if_pos empty, empty]
    change _ = Except.ok (if original = original then none else _, _)
    rw [if_pos rfl]
    rfl
  · rw [if_neg empty, if_neg (not_not_intro named)]
    dsimp only
    congr 1
    funext rotated
    split
    · next same => rw [same]
    · rfl

theorem rotateLog_none (thisYear : Nat) (named : Perl.isTrue name = true)
    (normal : normalizeRotation name rotation = .ok rules) (now : Int) :
    rotateLog thisYear name rotation now false none = .ok (none, none) := by
  rw [rotateLog, if_neg (ne_nil_of_isTrue named), normal]
  change (if rules = [] then _ else if ¬ _ then _ else _) = _
  by_cases empty : rules = []
  · rw [if_pos empty]
  · rw [if_neg empty, if_neg (not_not_intro named)]

variable {entry : LogEntry}

theorem KeepsWhole.isFrame (whole : KeepsWhole thisYear name entry)
    (dated : entry.instant.isSome = true) :
    Framed.IsFrame beginsEntry (entryLines name entry) := by
  obtain ⟨instant, isDated⟩ := Option.isSome_iff_exists.mp dated
  obtain ⟨first, rest, header⟩ := exists_isHeader isDated name
  exact header.isFrame_iff.mpr ⟨whole.header, whole.outputs⟩

theorem rotationKeepsEntries_of_keepsWhole (named : Perl.isTrue name = true)
    (dated : ∀ entry ∈ entries, entry.instant.isSome = true)
    (whole : ∀ entry ∈ entries, KeepsWhole thisYear name entry) :
    RotationKeepsEntries thisYear name entries := by
  intro log appended rotation rules now normal
  by_cases empty : entries = []
  · rw [appendLogEntries_eq named, if_pos empty, Except.ok.injEq] at appended
    subst empty appended
    have none_ : rotatedEntries name rules now [] = [] := by
      rw [List.eq_nil_iff_forall_not_mem]
      intro entry member
      exact List.not_mem_nil
        (mem_of_mem_retainedByAge entry
          (mem_retainedByAge_of_mem_rotatedEntries entry member))
    refine ⟨none, none, rotatedEntries name rules now [],
      rotateLog_none thisYear named normal now,
      retained_rotatedEntries name rules now [], ?_,
      rotateLog_none thisYear named normal now⟩
    rw [none_]
    rfl
  · rw [appendLogEntries_cons named empty, Except.ok.injEq] at appended
    subst appended
    have applies :
        ∀ others : List LogEntry, (∀ other ∈ others, other ∈ entries) →
          applyLogRotation thisYear name (logText name others) rules now =
            .ok (logText name (rotatedEntries name rules now others)) := by
      intro others among
      apply applyLogRotation_logText
      · exact fun other member =>
          (whole other (among other member)).isFrame
            (dated other (among other member))
      · exact fun other member => dated other (among other member)
      · exact fun other member => (whole other (among other member)).dated
    have kept :
        ∀ entry ∈ rotatedEntries name rules now entries, entry ∈ entries :=
      fun entry member =>
        mem_of_mem_retainedByAge entry
          (mem_retainedByAge_of_mem_rotatedEntries entry member)
    have first :=
      rotateLog_some thisYear named normal (logText name entries) now
    rw [applies entries fun entry member => member] at first
    refine ⟨_, some (logText name (rotatedEntries name rules now entries)),
      rotatedEntries name rules now entries, first,
      retained_rotatedEntries name rules now entries, rfl, ?_⟩
    rw [rotateLog_some thisYear named normal, applies _ kept,
      rotatedEntries_rotatedEntries]
    change Except.ok (if _ then _ else _, _) = _
    rw [if_pos rfl]

theorem exists_kept (named : Perl.isTrue name = true)
    (nonempty : entries ≠ [])
    (keeps : RotationKeepsEntries thisYear name entries)
    (normal : normalizeRotation name rotation = .ok rules) (now : Int) :
    ∃ kept,
      applyLogRotation thisYear name (logText name entries) rules now =
          .ok (logText name kept) ∧
        Retained name rules now entries kept := by
  obtain ⟨report, afterwards, kept, rotated, retained, same, -⟩ :=
    keeps _ (appendLogEntries_cons named nonempty) rotation rules now normal
  rw [rotateLog_some thisYear named normal] at rotated
  refine ⟨kept, ?_, retained⟩
  cases applied :
    applyLogRotation thisYear name (logText name entries) rules now with
  | error message =>
    rw [applied] at rotated
    contradiction
  | ok text =>
    rw [applied] at rotated
    have both := Except.ok.inj rotated
    rw [Prod.mk.injEq] at both
    rw [← both.2, Option.getD_some] at same
    rw [same]

theorem exists_line_rule (name : Text) (lines : Nat) :
    ∃ rotation,
      normalizeRotation name rotation = .ok [(.lines, lines)] := by
  refine ⟨some (.hash [("lines", .number (Nat.repr lines))]), ?_⟩
  have digits :
      (Nat.repr lines).toList ≠ [] ∧
        (Nat.repr lines).toList.all isDigit = true := by
    constructor
    · rw [Nat.toList_repr]
      exact List.length_pos_iff.mp Nat.length_toDigits_pos
    · rw [List.all_eq_true]
      exact fun char member => (isDigit_of_mem_repr member).2
  have rule :
      normalizeRule name [] ("lines", .number (Nat.repr lines)) =
        .ok [(.lines, lines)] := by
    unfold normalizeRule
    change
      (if (Nat.repr lines).toList ≠ [] ∧
          (Nat.repr lines).toList.all isDigit = true then
        Except.ok [(RotationKey.lines, stringNumber (Nat.repr lines).toList)]
      else _) = _
    rw [if_pos digits, stringNumber_repr]
  change
    (normalizeRule name [] ("lines", .number (Nat.repr lines))).bind _ = _
  rw [rule]
  rfl

theorem trimLogByLines_of_beginsEntry {front back : List Text} {line : Text}
    (isLines : ∀ other ∈ front ++ line :: back, IsLine other)
    (nonempty : front ≠ []) (marked : beginsEntry line = true) :
    trimLogByLines (front ++ line :: back).flatten (back.length + 1) =
      (line :: back).flatten := by
  have length := List.length_pos_iff.mpr nonempty
  have cut :
      (front ++ line :: back).drop
          ((front ++ line :: back).length - (back.length + 1)) =
        line :: back := by
    rw [List.length_append, List.length_cons, Nat.add_sub_cancel,
      List.drop_left]
  have isBack : ∀ other ∈ line :: back, IsLine other :=
    fun other member => isLines other (List.mem_append_right _ member)
  have starts : beginsEntry (line :: back).flatten = true := by
    rw [beginsEntry_flatten isBack]
    exact marked
  rw [trimLogByLines_flatten isLines (by simp), if_neg, if_neg (by omega),
    cut]
  · exact if_pos starts
  · rw [List.length_append, List.length_cons]
    omega

theorem isFrame_of_rotationKeepsEntries (named : Perl.isTrue name = true)
    (keeps : RotationKeepsEntries thisYear name entries)
    (member : entry ∈ entries) {instant : Int}
    (dated : entry.instant = some instant) :
    Framed.IsFrame beginsEntry (entryLines name entry) := by
  obtain ⟨first, rest, header⟩ := exists_isHeader dated name
  have shape := header.entryLines_eq
  rw [shape, Framed.IsFrame]
  refine ⟨header.marked, fun line isIn => ?_⟩
  rw [Bool.eq_false_iff]
  intro marked
  obtain ⟨front, back, split⟩ := List.append_of_mem isIn
  obtain ⟨before, after, rfl⟩ := List.append_of_mem member
  rw [split] at shape
  have lines :
      logLines name (before ++ entry :: after) =
        (logLines name before ++ first :: front) ++
          line :: (back ++ logLines name after) := by
    simp [logLines, shape]
  have isLines := @isLine_of_mem_logLines name (before ++ entry :: after)
  rw [lines] at isLines
  have cut :=
    trimLogByLines_of_beginsEntry isLines (by simp) marked
  rw [← lines, flatten_logLines] at cut
  have count :
      ((line :: (back ++ logLines name after)).flatten).count '\n' =
        back.length + 1 + Framed.total (entrySize name) after := by
    rw [count_flatten_lines fun other member =>
      isLines other (List.mem_append_right _ member), List.length_cons,
      List.length_append, length_logLines]
    omega
  -- the line rule that cuts right before the imitation
  obtain ⟨rotation, normal⟩ :=
    exists_line_rule name ((back ++ logLines name after).length + 1)
  obtain ⟨kept, applied, retained⟩ :=
    exists_kept named (by simp) keeps normal 0
  have longest :
      LongestWithin name ((back ++ logLines name after).length + 1)
        (before ++ entry :: after) kept :=
    retained
  have same :
      trimLogByLines (logText name (before ++ entry :: after))
          ((back ++ logLines name after).length + 1) =
        logText name kept :=
    Except.ok.inj applied
  have size : entrySize name entry = front.length + back.length + 2 := by
    rw [entrySize, shape]
    simp
    omega
  have different :
      Framed.total (entrySize name) kept ≠
        back.length + 1 + Framed.total (entrySize name) after :=
    Framed.total_suffix_ne longest.suffix (by omega) (by omega)
  rw [← count_logText, ← same, cut] at different
  exact different count

/-- What the age rule keeps of some texts. -/
theorem keepFrom_eq {cutoff : Int} {texts kept : List Text}
    (keeps : keepFrom thisYear name cutoff texts = .ok kept) :
    (∀ text ∈ texts, ∃ epoch,
        entryTimestampEpoch thisYear name text = .ok epoch) ∧
      kept = texts.filter fun text =>
        (entryTimestampEpoch thisYear name text).toOption.any
          fun epoch => cutoff ≤ epoch := by
  induction texts generalizing kept with
  | nil =>
    rw [← Except.ok.inj keeps]
    exact ⟨fun text member => absurd member List.not_mem_nil, rfl⟩
  | cons text rest ih =>
    rw [keepFrom] at keeps
    cases read : entryTimestampEpoch thisYear name text with
    | error message =>
      rw [read] at keeps
      contradiction
    | ok epoch =>
      rw [read] at keeps
      cases later : keepFrom thisYear name cutoff rest with
      | error message =>
        change (keepFrom thisYear name cutoff rest).map _ = _ at keeps
        rw [later] at keeps
        contradiction
      | ok others =>
        change (keepFrom thisYear name cutoff rest).map _ = _ at keeps
        rw [later] at keeps
        obtain ⟨reads, same⟩ := ih later
        refine ⟨?_, ?_⟩
        · rintro other (_ | ⟨_, member⟩)
          · exact ⟨epoch, read⟩
          · exact reads other member
        · have shape :
              (if cutoff ≤ epoch then text :: others else others) =
                kept :=
            Except.ok.inj keeps
          have here :
              ((Except.ok epoch : Except Text Int).toOption.any
                fun epoch => cutoff ≤ epoch) =
                  decide (cutoff ≤ epoch) :=
            rfl
          rw [← shape, List.filter_cons, read, here, ← same]
          by_cases from_ : cutoff ≤ epoch
          · rw [if_pos from_, if_pos (decide_eq_true from_)]
          · rw [if_neg from_, if_neg (by simpa using from_)]

theorem filter_eq_of_map_filter_eq
    {Item Image : Type} [DecidableEq Image] (image : Item → Image)
    (keeps : Image → Bool) {chosen : Item → Bool} {items : List Item}
    (same :
      (items.filter fun item => keeps (image item)).map image =
        (items.filter chosen).map image) :
    ∀ item ∈ items, keeps (image item) = chosen item := by
  intro item member
  have alike :
      ∀ some_ : Item → Bool,
        ((items.filter some_).map image).count (image item) =
          (items.filter fun other => image other == image item).countP
            some_ := by
    intro some_
    rw [List.count_eq_countP, List.countP_map, List.countP_filter,
      List.countP_filter]
    apply List.countP_congr
    intro other _
    rw [Function.comp_apply, Bool.and_comm]
  have counts :=
    (alike fun other => keeps (image other)).symm.trans
      ((congrArg (List.count (image item)) same).trans (alike chosen))
  have self :
      item ∈ items.filter fun other => image other == image item := by
    rw [List.mem_filter]
    exact ⟨member, beq_self_eq_true _⟩
  cases kept : keeps (image item) with
  | true =>
    have all :
        (items.filter fun other => image other == image item).countP
            (fun other => keeps (image other)) =
          (items.filter fun other => image other == image item).length := by
      rw [List.countP_eq_length]
      intro other isIn
      rw [eq_of_beq (List.mem_filter.mp isIn).2, kept]
    rw [all] at counts
    exact (List.countP_eq_length.mp counts.symm item self).symm
  | false =>
    have none_ :
        (items.filter fun other => image other == image item).countP
            (fun other => keeps (image other)) = 0 := by
      rw [List.countP_eq_zero]
      intro other isIn
      rw [eq_of_beq (List.mem_filter.mp isIn).2, kept]
      exact Bool.false_ne_true
    rw [none_] at counts
    have never := List.countP_eq_zero.mp counts.symm item self
    rw [Bool.not_eq_true] at never
    exact never.symm

theorem normalizeRotation_no_minutes (name : Text) :
    normalizeRotation name
        (some (.hash [("minutes", .number "0")])) =
      .ok [(.minutes, 0)] :=
  rfl

theorem datesEntry_of_rotationKeepsEntries (named : Perl.isTrue name = true)
    (dated : ∀ entry ∈ entries, entry.instant.isSome = true)
    (keeps : RotationKeepsEntries thisYear name entries)
    (member : entry ∈ entries) :
    DatesEntry thisYear name entry := by
  have nonempty := List.ne_nil_of_mem member
  have framed :
      ∀ other ∈ entries,
        Framed.IsFrame beginsEntry (entryLines name other) := by
    intro other isIn
    obtain ⟨instant, isDated⟩ :=
      Option.isSome_iff_exists.mp (dated other isIn)
    exact isFrame_of_rotationKeepsEntries named keeps isIn isDated
  have text : logText name entries ≠ [] := by
    obtain ⟨first, rest, shape⟩ := List.exists_cons_of_ne_nil nonempty
    obtain ⟨front, ends⟩ := endsLine_entryText name first
    rw [shape, logText, List.flatMap_cons, ends]
    simp
  -- the rule whose cutoff is the given time
  have reads :
      ∀ now : Int,
        (∀ other ∈ entries, ∃ epoch,
          entryTimestampEpoch thisYear name (entryText name other) =
            .ok epoch) ∧
          ∀ other ∈ entries,
            ((entryTimestampEpoch thisYear name
                (entryText name other)).toOption.any
              fun epoch => now ≤ epoch) =
              other.instant.any fun instant => now ≤ instant := by
    intro now
    obtain ⟨kept, applied, retained⟩ :=
      exists_kept named nonempty keeps (normalizeRotation_no_minutes name)
        now
    have isKept : kept = entriesFrom (now - (0 : Nat)) entries := retained
    change
      (trimLogByAge thisYear name (logText name entries) 0 now).map _ = _
      at applied
    rw [trimLogByAge, if_neg text, splitLogEntries_logText framed]
      at applied
    cases found :
      keepFrom thisYear name (now - (0 : Nat))
        (entries.map (entryText name)) with
    | error message =>
      rw [found] at applied
      contradiction
    | ok texts =>
      rw [found] at applied
      have flat : texts.flatten = logText name kept :=
        Except.ok.inj applied
      obtain ⟨dates, shape⟩ := keepFrom_eq found
      rw [Nat.cast_zero, Int.sub_zero] at isKept shape
      refine ⟨fun other isIn =>
        dates _ (List.mem_map_of_mem isIn), ?_⟩
      rw [List.filter_map] at shape
      rw [shape, isKept, flatten_map_entryText, entriesFrom] at flat
      have texts_ := congrArg splitLogEntries flat
      rw [splitLogEntries_logText fun other isIn =>
          framed other (List.mem_of_mem_filter isIn),
        splitLogEntries_logText fun other isIn =>
          framed other (List.mem_of_mem_filter isIn)] at texts_
      exact filter_eq_of_map_filter_eq (entryText name)
        (fun text =>
          (entryTimestampEpoch thisYear name text).toOption.any
            fun epoch => now ≤ epoch) texts_
  obtain ⟨instant, isDated⟩ :=
    Option.isSome_iff_exists.mp (dated entry member)
  obtain ⟨epoch, read⟩ := (reads 0).1 entry member
  have order :
      ∀ now : Int, now ≤ epoch ↔ now ≤ instant := by
    intro now
    have same := (reads now).2 entry member
    rw [read, isDated, Option.any_some] at same
    have decided :
        decide (now ≤ epoch) = decide (now ≤ instant) := same
    exact decide_eq_decide.mp decided
  have equal : epoch = instant :=
    le_antisymm ((order epoch).mp (le_refl _))
      ((order instant).mpr (le_refl _))
  rw [equal] at read
  exact (entryTimestampEpoch_eq_iff isDated thisYear name).mp read

/--
Rotation keeps whole entries exactly when no line of an output, and no line of
the name after its first, begins like a header, and each header is read at the
time of its entry.
-/
theorem rotation_keeps_entries_iff
    (thisYear : Nat) {name : Text} (named : Perl.isTrue name = true)
    {entries : List LogEntry}
    (dated : ∀ entry ∈ entries, entry.instant.isSome = true) :
    RotationKeepsEntries thisYear name entries ↔
      ∀ entry ∈ entries, KeepsWhole thisYear name entry := by
  constructor
  · intro keeps entry member
    obtain ⟨instant, isDated⟩ :=
      Option.isSome_iff_exists.mp (dated entry member)
    obtain ⟨first, rest, header⟩ := exists_isHeader isDated name
    obtain ⟨quietName, quiet⟩ :=
      header.isFrame_iff.mp
        (isFrame_of_rotationKeepsEntries named keeps member isDated)
    exact ⟨quiet, quietName,
      datesEntry_of_rotationKeepsEntries named dated keeps member⟩
  · exact rotationKeepsEntries_of_keepsWhole named dated

def plainEntry : LogEntry where
  happenedAt := some "2026-01-01T00:00:00Z".toList
  exitCode := some 0
  timedOut := false
  stdout := some "a\nb".toList
  stderr := none
  error := none
  source := none

/-- Rotation keeps the entries of a collector that prints two lines. -/
theorem rotation_keeps_plain_entries :
    RotationKeepsEntries 126 "c".toList [plainEntry, plainEntry] := by
  have dated :
      ∀ entry ∈ [plainEntry, plainEntry], entry.instant.isSome = true := by
    decide
  refine (rotation_keeps_entries_iff 126 (by decide) dated).mpr ?_
  have whole : KeepsWhole 126 "c".toList plainEntry :=
    ⟨by decide, by decide, by
      rw [DatesEntry, if_neg (by decide)]
      decide⟩
  intro entry member
  rcases List.mem_cons.mp member with rfl | second
  · exact whole
  · rw [List.mem_singleton.mp second]
    exact whole

/-- An entry of a collector that prints the mark of a header. -/
def imitatingEntry : LogEntry :=
  { plainEntry with stdout := some "=== collector x\n".toList }

/--
An imitated header stays alone when the line rule cuts there, and no age rule
rotates the log.
-/
theorem rotation_cuts_imitating_entry :
    trimLogByLines (logText "c".toList [imitatingEntry]) 2 =
        "=== collector x\n\n".toList ∧
      applyLogRotation 126 "c".toList
          (logText "c".toList [imitatingEntry]) [(.days, 1)] 0 =
        .error
          "Unable to parse collector log timestamp for c\n".toList ∧
      ¬ RotationKeepsEntries 126 "c".toList [imitatingEntry] := by
  refine ⟨by decide, by decide, ?_⟩
  intro keeps
  obtain ⟨report, afterwards, kept, rotated, -⟩ :=
    keeps (some (logText "c".toList [imitatingEntry])) rfl
      (some (.hash [("days", .number "1")])) [(.days, 1)] 0 rfl
  have died :
      rotateLog 126 "c".toList (some (.hash [("days", .number "1")])) 0 false
          (some (logText "c".toList [imitatingEntry])) =
        .error
          "Unable to parse collector log timestamp for c\n".toList := by
    decide
  rw [died] at rotated
  contradiction

end DeveloperDashboard.Collector
