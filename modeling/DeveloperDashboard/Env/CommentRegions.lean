import DeveloperDashboard.Env.EnvContent

namespace DeveloperDashboard.Env

open Library Perl

/-!
# Regions of block comments

An include directive is recognized before the comment state is consulted, so
the lines that begin inside a block comment are not inert: their directives
run, and a directive that the last of them begins may even swallow the end of
the comment.  Nothing else of a region is read.
-/

def commentStart : Text :=
  ['/', '*']

def commentEnd : Text :=
  ['*', '/']

/-- What follows `<` on a line that starts like an include directive. -/
def directiveTarget (line : Text) : Option Text :=
  (afterLiteral ['#'] (trimBytes line)).bind fun rest =>
    (afterLiteral "include".toList (trimBytes rest)).bind fun word =>
      afterLiteral ['<'] (trimBytes word)

/-- The spec of a directive, from what follows `<`. -/
def targetSpec (target : Text) : Option Text :=
  match target.dropWhile (· ≠ '>') with
  | '>' :: after =>
    if target.takeWhile (· ≠ '>') ≠ [] && after.all isByteSpace then
      some (target.takeWhile (· ≠ '>'))
    else none
  | _ => none

/-- The skills that a line includes, a comment or not. -/
def lineSpec (line : Text) : Option Text :=
  ((includeDirective (dropReturn line)).filter isTrue).filter namesSkills

/-- A line that starts an include directive and leaves its spec open. -/
def beginsDirective (line : Text) : Bool :=
  (directiveTarget line).any fun target => target.all (· ≠ '>')

/--
The specs on the lines that begin inside a region and end there, and whether
the line that ends after it begins a directive.
-/
def regionIncludes (region : Text) : List Text × Bool :=
  let begun := (region.splitOn '\n').tail
  (begun.dropLast.filterMap lineSpec, begun.getLast?.any beginsDirective)

/-- What stands in front of a block comment: whole lines, and then blanks. -/
structure BeforeComment where
  front : Text
  blanks : Text
  whole : front = [] ∨ front.getLast? = some '\n'
  closed : (readLines false (contentLines front)).1 = false
  areBlanks : blanks.all isByteSpace = true
  oneLine : '\n' ∉ blanks

def BeforeComment.withRegion
    (before : BeforeComment) (region rest : Text) : Text :=
  before.front ++
    (before.blanks ++ (commentStart ++ (region ++ (commentEnd ++ rest))))

structure SameLoad
    (host : EnvHost) (file : Text) (env : Environment)
    (first second : Text) : Prop where
  events : ∀ event,
    event ∈ loadEvents host file first env ↔
      event ∈ loadEvents host file second env
  fails : loadFails host file first env = loadFails host file second env

/-- Replacing a region changes nothing that a load does, whatever the file. -/
def IsInert (old new : Text) : Prop :=
  ∀ host : EnvHost, host.ResolvesNames →
    ∀ (file : Text) (env : Environment) (before : BeforeComment)
      (rest : Text),
      SameLoad host file env (before.withRegion old rest)
        (before.withRegion new rest)

theorem afterCommentEnd_eq_none_iff (text : Text) :
    afterCommentEnd text = none ↔ ¬ commentEnd <:+: text := by
  induction text with
  | nil => simp [afterCommentEnd, commentEnd]
  | cons char rest ih =>
    unfold afterCommentEnd
    split
    · next after same =>
        constructor
        · intro nothing
          cases nothing
        · intro apart
          rw [same] at apart
          exact absurd (List.prefix_append commentEnd after).isInfix apart
    · next other more notEnd same =>
        obtain ⟨rfl, rfl⟩ := List.cons.inj same
        rw [ih, List.infix_cons_iff, not_or]
        refine ⟨fun apart => ⟨fun starts => ?_, apart⟩, fun both => both.2⟩
        obtain ⟨after, whole⟩ := starts
        obtain ⟨star, slash⟩ := List.cons.inj whole.symm
        exact notEnd after star slash
    · next same => cases same

variable {text : Text}

theorem length_of_afterCommentEnd {rest : Text}
    (found : afterCommentEnd text = some rest) :
    rest.length < text.length := by
  induction text with
  | nil => cases found
  | cons char later ih =>
    unfold afterCommentEnd at found
    split at found
    · next after same =>
        obtain rfl := Option.some.inj found
        rw [same]
        exact Nat.lt_succ_of_lt (Nat.lt_succ_self _)
    · next other more notEnd same =>
        obtain ⟨rfl, rfl⟩ := List.cons.inj same
        exact Nat.lt_succ_of_lt (ih found)
    · next same => cases same

theorem afterCommentEnd_append
    (open' : afterCommentEnd text = none) (rest : Text) :
    afterCommentEnd (text ++ (commentEnd ++ rest)) = some rest := by
  induction text with
  | nil => rfl
  | cons char later ih =>
    unfold afterCommentEnd at open'
    split at open'
    · cases open'
    · next other more notEnd same =>
        obtain ⟨rfl, rfl⟩ := List.cons.inj same
        rw [List.cons_append, afterCommentEnd]
        · exact ih open'
        · intro after star whole
          cases later with
          | nil => cases whole
          | cons second others =>
            obtain ⟨rfl, -⟩ := List.cons.inj whole
            exact notEnd others star rfl
    · next same => cases same

theorem trimBytes_append_star (text more : Text) :
    trimBytes (text ++ '*' :: more) = trimBytes text ++ '*' :: more := by
  unfold trimBytes
  induction text with
  | nil => rfl
  | cons char rest ih =>
    rw [List.cons_append, List.dropWhile_cons, List.dropWhile_cons]
    cases isByteSpace char with
    | false => rfl
    | true => exact ih

theorem length_trimBytes_le (text : Text) :
    (trimBytes text).length ≤ text.length :=
  (List.dropWhile_suffix _).length_le

variable {line : Text}

/-- More room than a line is long does not matter. -/
theorem stripComments_eq_of_lt {fuel other : Nat} {inComment : Bool}
    (room : line.length < fuel) (otherRoom : line.length < other) :
    stripComments fuel inComment line =
      stripComments other inComment line := by
  induction fuel generalizing other inComment line with
  | zero => cases room
  | succ fuel ih =>
    cases other with
    | zero => cases otherRoom
    | succ other =>
      have trimmed := length_trimBytes_le line
      cases inComment with
      | true =>
        unfold stripComments
        cases found : afterCommentEnd (trimBytes line) with
        | none => rfl
        | some rest =>
          have shorter := length_of_afterCommentEnd found
          exact ih (by omega) (by omega)
      | false =>
        unfold stripComments
        dsimp only
        split
        · next starts =>
            have isPrefix := List.isPrefixOf_iff_prefix.mp starts
            have two := isPrefix.length_le
            have dropped :=
              List.length_drop (i := 2) (l := trimBytes line)
            change 2 ≤ _ at two
            exact ih (by omega) (by omega)
        · rfl

theorem stripEnvComments_inside (open' : ¬ commentEnd <:+: line) :
    stripEnvComments true line = (true, []) := by
  have stays : afterCommentEnd (trimBytes line) = none := by
    rw [afterCommentEnd_eq_none_iff]
    exact fun isIn => open' (isIn.trans (List.dropWhile_suffix _).isInfix)
  rw [stripEnvComments, stripComments, stays]

theorem stripEnvComments_end (open' : ¬ commentEnd <:+: line) (rest : Text) :
    stripEnvComments true (line ++ (commentEnd ++ rest)) =
      stripEnvComments false rest := by
  have stays : afterCommentEnd (trimBytes line) = none := by
    rw [afterCommentEnd_eq_none_iff]
    exact fun isIn => open' (isIn.trans (List.dropWhile_suffix _).isInfix)
  have found :
      afterCommentEnd (trimBytes (line ++ (commentEnd ++ rest))) =
        some rest := by
    have trimmed := trimBytes_append_star line ('/' :: rest)
    have same : commentEnd ++ rest = '*' :: '/' :: rest := rfl
    rw [same, trimmed, ← same]
    exact afterCommentEnd_append stays rest
  rw [stripEnvComments, stripComments, found]
  dsimp only
  apply stripComments_eq_of_lt
  · rw [List.length_append, List.length_append]
    change rest.length < line.length + (2 + rest.length)
    omega
  · exact Nat.lt_succ_self _

theorem stripEnvComments_start {blanks : Text}
    (areBlanks : blanks.all isByteSpace = true) (line : Text) :
    stripEnvComments false (blanks ++ (commentStart ++ line)) =
      stripEnvComments true line := by
  have trimmed :
      trimBytes (blanks ++ (commentStart ++ line)) =
        '/' :: '*' :: line := by
    unfold trimBytes
    rw [List.dropWhile_append_of_pos (List.all_eq_true.mp areBlanks)]
    rfl
  rw [stripEnvComments, stripComments, trimmed]
  have starts :
      "/*".toList.isPrefixOf ('/' :: '*' :: line) = true := rfl
  rw [if_pos starts]
  apply stripComments_eq_of_lt
  · rw [List.length_append]
    change line.length < blanks.length + (line.length + 2)
    omega
  · exact Nat.lt_succ_self _

theorem afterLiteral_singleton_eq_none {char : Char}
    (other : ∀ rest, text = char :: rest → False) :
    afterLiteral [char] text = none := by
  cases text with
  | nil => rfl
  | cons first rest =>
    have different : char ≠ first := by
      rintro rfl
      exact other rest rfl
    simp [afterLiteral, List.isPrefixOf, different]

theorem afterLiteral_append_star {literal : Text} (plain : '*' ∉ literal)
    (text more : Text) :
    afterLiteral literal (text ++ '*' :: more) =
      (afterLiteral literal text).map (· ++ '*' :: more) := by
  induction literal generalizing text with
  | nil => rfl
  | cons char rest ih =>
    rw [List.mem_cons, not_or] at plain
    cases text with
    | nil =>
      have different : char ≠ '*' := Ne.symm plain.1
      simp [afterLiteral, List.isPrefixOf, different]
    | cons first others =>
      have behind (text : Text) :
          afterLiteral (char :: rest) (first :: text) =
            if char = first then afterLiteral rest text else none := by
        by_cases same : char = first
        · simp [afterLiteral, List.isPrefixOf, same]
        · simp [afterLiteral, List.isPrefixOf, same]
      rw [List.cons_append, behind, behind, ih plain.2]
      split <;> rfl

theorem includeDirective_eq (line : Text) :
    includeDirective line = (directiveTarget line).bind targetSpec := by
  have single (char : Char) (rest : Text) :
      afterLiteral [char] (char :: rest) = some rest := by
    simp [afterLiteral, List.isPrefixOf]
  unfold includeDirective directiveTarget
  split
  · next rest same =>
      rw [same, single, Option.bind_some]
      unfold afterLiteral
      dsimp only
      split
      · rw [Option.bind_some]
        split
        · next target opens =>
            have word :
                trimBytes
                    ((trimBytes rest).drop "include".toList.length) =
                  '<' :: target := opens
            rw [word]
            exact (congrArg (Option.bind · targetSpec)
              (single '<' target)).symm
        · next other =>
            exact (congrArg (Option.bind · targetSpec)
              (afterLiteral_singleton_eq_none other)).symm
      · rfl
  · next other =>
      rw [afterLiteral_singleton_eq_none other]
      rfl

theorem directiveTarget_append (line more : Text) :
    directiveTarget (line ++ '*' :: more) =
      (directiveTarget line).map (· ++ '*' :: more) := by
  unfold directiveTarget
  rw [trimBytes_append_star, afterLiteral_append_star (by decide)]
  cases afterLiteral ['#'] (trimBytes line) with
  | none => rfl
  | some rest =>
    rw [Option.map_some, Option.bind_some, Option.bind_some,
      trimBytes_append_star, afterLiteral_append_star (by decide)]
    cases afterLiteral "include".toList (trimBytes rest) with
    | none => rfl
    | some word =>
      rw [Option.map_some, Option.bind_some, Option.bind_some,
        trimBytes_append_star, afterLiteral_append_star (by decide)]

/-- Whether a text closes the spec of a directive and ends the line. -/
def closesDirective (text : Text) : Bool :=
  match text.dropWhile (· ≠ '>') with
  | '>' :: after => after.all isByteSpace
  | _ => false

theorem targetSpec_append (target head : Text) :
    targetSpec (target ++ (commentEnd ++ head)) =
      if target.all (· ≠ '>') && closesDirective head then
        some (target ++ (commentEnd ++ head.takeWhile (· ≠ '>')))
      else none := by
  cases open' : target.all (· ≠ '>') with
  | true =>
    have open'' : (target ++ commentEnd).all (· ≠ '>') = true := by
      rw [List.all_append, open']
      rfl
    rw [← List.append_assoc]
    unfold targetSpec closesDirective
    rw [List.dropWhile_append_of_pos (List.all_eq_true.mp open''),
      List.takeWhile_append_of_pos (List.all_eq_true.mp open''),
      Bool.true_and]
    cases head.dropWhile (· ≠ '>') with
    | nil => rfl
    | cons char after =>
      by_cases closes : char = '>'
      · subst closes
        simp [commentEnd]
      · simp [closes]
  | false =>
    have isIn : '>' ∈ target := by
      simpa using open'
    obtain ⟨front, back, rfl, plain⟩ := List.eq_append_cons_of_mem isIn
    have opens : ∀ char ∈ front, decide (char ≠ '>') = true := by
      intro char isChar
      rw [decide_eq_true_iff]
      rintro rfl
      exact plain isChar
    have behind :
        (back ++ (commentEnd ++ head)).all isByteSpace = false := by
      rw [List.all_append, List.all_append]
      exact Bool.and_false _
    unfold targetSpec
    rw [List.append_assoc, List.dropWhile_append_of_pos opens,
      List.cons_append, List.dropWhile_cons_of_neg (by simp),
      Bool.false_and]
    split
    · next after same =>
        obtain ⟨-, rfl⟩ := List.cons.inj same
        rw [behind, Bool.and_false]
        rfl
    · rfl

theorem namesSkills_of_slash {spec : Text} (slash : '/' ∈ spec) :
    namesSkills spec = false := by
  let dotted :=
    if ".*".toList.isSuffixOf spec then spec.take (spec.length - 2)
    else spec
  have slashLeft : '/' ∈ dotted := by
    by_cases ends : ".*".toList.isSuffixOf spec = true
    · have same : dotted = spec.take (spec.length - 2) := if_pos ends
      obtain ⟨front, whole⟩ := List.isSuffixOf_iff_suffix.mp ends
      rw [same, ← whole]
      rw [← whole, List.mem_append] at slash
      rcases slash with inFront | inEnd
      · have length :
            (front ++ ".*".toList).length - 2 = front.length := by
          rw [List.length_append]
          rfl
        rw [length, List.take_left]
        exact inFront
      · exact absurd inEnd (by decide)
    · have same : dotted = spec := if_neg ends
      rw [same]
      exact slash
  have joined : ['.'].intercalate (dotted.splitOn '.') = dotted :=
    List.intercalate_splitOn '.'
  rw [← joined, Joined.mem_intercalate_iff] at slashLeft
  rcases slashLeft with ⟨segment, isPart, isIn⟩ | ⟨same, -⟩
  · have isSegment : segment ∈ includeSegments spec :=
      List.mem_filter.mpr ⟨isPart, by
        rw [decide_eq_true_iff]
        exact List.ne_nil_of_mem isIn⟩
    have invalid : isValidSegment segment = false := by
      rw [isValidSegment, Bool.and_eq_false_iff]
      right
      rw [List.all_eq_false]
      exact ⟨'/', isIn, by decide⟩
    rw [namesSkills, Bool.and_eq_false_iff]
    right
    rw [List.all_eq_false]
    exact ⟨segment, isSegment, by rw [invalid]; decide⟩
  · cases same

theorem not_mem_of_includeDirective {spec : Text}
    (directive : includeDirective line = some spec) : '>' ∉ spec := by
  rw [includeDirective_eq] at directive
  obtain ⟨target, -, isSpec⟩ := Option.bind_eq_some_iff.mp directive
  unfold targetSpec at isSpec
  split at isSpec
  · split at isSpec
    · obtain rfl := Option.some.inj isSpec
      intro isIn
      have open' := List.mem_takeWhile_imp isIn
      exact absurd open' (by decide)
    · cases isSpec
  · cases isSpec

/-- What stands on the line of the end of a comment, behind it. -/
def restHead (rest : Text) : Text :=
  ((contentLines (commentEnd ++ rest)).headD []).drop 2

def restLines (rest : Text) : List Text :=
  (contentLines (commentEnd ++ rest)).tail

/-- The line that ends behind a region: it may swallow the comment's end. -/
def closeLine (begins : Bool) (head : Text) : Bool × List EnvStatement :=
  if begins && closesDirective head then (true, [])
  else
    let stripped := stripEnvComments false head
    (stripped.1, [envStatement stripped.2].filter isEffective)

/-- What a content says from the region of a comment on. -/
def afterRegion (includes : List Text × Bool) (rest : Text) :
    Bool × List EnvStatement :=
  let closed := closeLine includes.2 (restHead rest)
  let later := effectiveLines closed.1 (restLines rest)
  (later.1, includes.1.map EnvStatement.include' ++ (closed.2 ++ later.2))

theorem dropReturn_append {front : Text}
    (plain : front.getLast? ≠ some '\r') (line : Text) :
    dropReturn (front ++ line) = front ++ dropReturn line := by
  cases line using List.reverseRecOn with
  | nil =>
    rw [List.append_nil, dropReturn, if_neg plain]
    exact (List.append_nil front).symm
  | append_singleton line last =>
    unfold dropReturn
    rw [← List.append_assoc, List.getLast?_concat, List.getLast?_concat,
      List.dropLast_concat, List.dropLast_concat]
    split
    · rfl
    · rw [List.append_assoc]

theorem dropReturn_isPrefixOf (line : Text) : dropReturn line <+: line := by
  unfold dropReturn
  split
  · exact List.dropLast_prefix line
  · exact List.prefix_rfl

variable {piece : Text}

/-- The line of the end of a comment, whatever stands in front of it. -/
theorem contentLines_commentEnd (plain : '\n' ∉ piece) (rest : Text) :
    contentLines (piece ++ (commentEnd ++ rest)) =
      (piece ++ (commentEnd ++ restHead rest)) :: restLines rest := by
  have lines :
      ∃ head later, ∀ piece : Text, '\n' ∉ piece →
        contentLines (piece ++ (commentEnd ++ rest)) =
          (piece ++ (commentEnd ++ head)) :: later := by
    by_cases newline : '\n' ∈ rest
    · obtain ⟨first, more, rfl, plainFirst⟩ :=
        List.eq_append_cons_of_mem newline
      refine ⟨dropReturn first, contentLines more, fun piece plain => ?_⟩
      have plainLine : '\n' ∉ piece ++ (commentEnd ++ first) := by
        rw [List.mem_append, List.mem_append, not_or, not_or]
        exact ⟨plain, by decide, plainFirst⟩
      have whole :
          piece ++ (commentEnd ++ (first ++ '\n' :: more)) =
            (piece ++ (commentEnd ++ first)) ++ '\n' :: more := by
        simp only [List.append_assoc]
      have last : (piece ++ commentEnd).getLast? = some '/' := by
        rw [List.getLast?_append]
        rfl
      have ends : (piece ++ commentEnd).getLast? ≠ some '\r' := by
        rw [last]
        decide
      rw [whole, contentLines_append_newline plainLine,
        ← List.append_assoc, dropReturn_append ends, List.append_assoc]
    · refine ⟨rest, [], fun piece plain => ?_⟩
      apply contentLines_of_plain
      · rw [List.mem_append, List.mem_append, not_or, not_or]
        exact ⟨plain, by decide, newline⟩
      · exact List.append_ne_nil_of_right_ne_nil _
          (List.cons_ne_nil _ _)
  obtain ⟨head, later, same⟩ := lines
  have alone := same [] List.not_mem_nil
  rw [List.nil_append, List.nil_append] at alone
  have sameHead : restHead rest = head := by
    rw [restHead, alone]
    rfl
  have sameLater : restLines rest = later := by
    rw [restLines, alone]
    rfl
  rw [sameHead, sameLater, same piece plain]

theorem readEnvLine_inside (open' : ¬ commentEnd <:+: line) :
    (readEnvLine true (dropReturn line)).1 = true ∧
      [(readEnvLine true (dropReturn line)).2].filter isEffective =
        (lineSpec line).toList.map EnvStatement.include' := by
  have stays : ¬ commentEnd <:+: dropReturn line := fun isIn =>
    open' (isIn.trans (dropReturn_isPrefixOf line).isInfix)
  unfold readEnvLine lineSpec
  cases (includeDirective (dropReturn line)).filter isTrue with
  | none =>
    rw [stripEnvComments_inside stays]
    exact ⟨rfl, rfl⟩
  | some spec =>
    refine ⟨rfl, ?_⟩
    cases names : namesSkills spec with
    | true => simp [isEffective, names, Option.filter]
    | false => simp [isEffective, names, Option.filter]

theorem readEnvLine_close (open' : ¬ commentEnd <:+: piece) (head : Text) :
    ((readEnvLine true (piece ++ (commentEnd ++ head))).1,
        [(readEnvLine true (piece ++ (commentEnd ++ head))).2].filter
          isEffective) =
      closeLine (beginsDirective piece) head := by
  have directive :
      includeDirective (piece ++ (commentEnd ++ head)) =
        (directiveTarget piece).bind fun target =>
          if target.all (· ≠ '>') && closesDirective head then
            some (target ++ (commentEnd ++ head.takeWhile (· ≠ '>')))
          else none := by
    have appended := directiveTarget_append piece ('/' :: head)
    rw [includeDirective_eq]
    change (directiveTarget (piece ++ '*' :: '/' :: head)).bind
      targetSpec = _
    rw [appended]
    cases directiveTarget piece with
    | none => rfl
    | some target => exact targetSpec_append target head
  have closed :
      ((stripEnvComments true (piece ++ (commentEnd ++ head))).1,
          [envStatement
            (stripEnvComments true
              (piece ++ (commentEnd ++ head))).2].filter isEffective) =
        closeLine false head := by
    rw [stripEnvComments_end open']
    rfl
  unfold readEnvLine
  rw [directive]
  unfold beginsDirective
  cases directiveTarget piece with
  | none => exact closed
  | some target =>
    rw [Option.bind_some, Option.any_some]
    cases target.all (· ≠ '>') with
    | false => exact closed
    | true =>
      rw [Bool.true_and]
      cases closes : closesDirective head with
      | false =>
        have same : closeLine true head = closeLine false head := by
          unfold closeLine
          rw [closes]
          rfl
        rw [same]
        exact closed
      | true =>
        let spec :=
          target ++ (commentEnd ++ head.takeWhile (· ≠ '>'))
        have names : namesSkills spec = false :=
          namesSkills_of_slash
            (List.mem_append_right _
              (List.mem_append_left _ (by decide)))
        have long : Perl.isTrue spec = true := by
          rw [Perl.isTrue, decide_eq_true_iff]
          constructor
          · intro nothing
            have length := congrArg List.length nothing
            simp [spec, commentEnd] at length
          · intro nothing
            have length := congrArg List.length nothing
            simp only [spec, commentEnd, List.length_append,
              List.length_cons, List.length_nil] at length
            omega
        rw [if_pos rfl, Option.filter_some, if_pos long]
        dsimp only
        rw [closeLine, closes, List.filter_cons_of_neg
            (by rw [isEffective, names]; decide)]
        rfl

theorem effectiveLines_pieces {pieces : List Text}
    (open' : ∀ part ∈ piece :: pieces, ¬ commentEnd <:+: part)
    (plain : ∀ part ∈ piece :: pieces, '\n' ∉ part) (rest : Text) :
    effectiveLines true
        (contentLines
          (['\n'].intercalate (piece :: pieces) ++ (commentEnd ++ rest))) =
      afterRegion
        ((piece :: pieces).dropLast.filterMap lineSpec,
          (piece :: pieces).getLast?.any beginsDirective) rest := by
  induction pieces generalizing piece with
  | nil =>
    have closes :=
      readEnvLine_close (open' piece List.mem_cons_self) (restHead rest)
    rw [List.intercalate_singleton,
      contentLines_commentEnd (plain piece List.mem_cons_self),
      effectiveLines_cons, List.dropLast_singleton, List.filterMap_nil,
      List.getLast?_singleton, Option.any_some]
    unfold afterRegion
    dsimp only
    rw [← closes]
    rfl
  | cons next others ih =>
    have inside := readEnvLine_inside (open' piece List.mem_cons_self)
    have later :=
      ih
        (fun part isIn => open' part (List.mem_cons_of_mem _ isIn))
        (fun part isIn => plain part (List.mem_cons_of_mem _ isIn))
    rw [Joined.intercalate_cons_cons, List.append_assoc, List.cons_append,
      contentLines_append_newline (plain piece List.mem_cons_self),
      effectiveLines_cons, inside.1, inside.2, later,
      List.dropLast_cons_of_ne_nil (List.cons_ne_nil _ _),
      List.getLast?_cons_cons]
    unfold afterRegion
    dsimp only
    rw [List.filterMap_cons]
    cases lineSpec piece <;> rfl

theorem readEnvLine_start {blanks : Text}
    (areBlanks : blanks.all isByteSpace = true) (line : Text) :
    readEnvLine false (blanks ++ (commentStart ++ line)) =
      ((stripEnvComments true line).1,
        envStatement (stripEnvComments true line).2) := by
  have trimmed :
      trimBytes (blanks ++ (commentStart ++ line)) =
        '/' :: '*' :: line := by
    unfold trimBytes
    rw [List.dropWhile_append_of_pos (List.all_eq_true.mp areBlanks)]
    rfl
  have noDirective :
      includeDirective (blanks ++ (commentStart ++ line)) = none := by
    rw [includeDirective_eq, directiveTarget, trimmed]
    rfl
  rw [readEnvLine, noDirective]
  dsimp only [Option.filter_none]
  rw [stripEnvComments_start areBlanks]

/-- What a content with a comment says depends on the directives in it. -/
theorem contentStatements_withRegion (before : BeforeComment) {region : Text}
    (open' : ¬ commentEnd <:+: region) (rest : Text) :
    contentStatements (before.withRegion region rest) =
      ((afterRegion (regionIncludes region) rest).1,
        (contentStatements before.front).2 ++
          (afterRegion (regionIncludes region) rest).2) := by
  have whole_region :
      effectiveLines false
          (contentLines
            (before.blanks ++
              (commentStart ++ (region ++ (commentEnd ++ rest))))) =
        afterRegion (regionIncludes region) rest := by
    have joined : ['\n'].intercalate (region.splitOn '\n') = region :=
      List.intercalate_splitOn '\n'
    have apart : ∀ part ∈ region.splitOn '\n', ¬ commentEnd <:+: part :=
      fun part isPart isIn =>
        open' (isIn.trans (Joined.infix_of_mem_splitOn isPart))
    have plain : ∀ part ∈ region.splitOn '\n', '\n' ∉ part :=
      fun part isPart => Joined.not_mem_of_mem_splitOn isPart
    unfold regionIncludes
    cases split : region.splitOn '\n' with
    | nil => exact absurd split (List.splitOn_ne_nil _ _)
    | cons piece pieces =>
      rw [split] at joined apart plain
      have plainPiece := plain piece List.mem_cons_self
      have openPiece := apart piece List.mem_cons_self
      have plainStart : '\n' ∉ before.blanks ++ (commentStart ++ piece) := by
        rw [List.mem_append, List.mem_append, not_or, not_or]
        exact ⟨before.oneLine, by decide, plainPiece⟩
      rw [← joined]
      cases pieces with
      | nil =>
        have whole :
            before.blanks ++
                (commentStart ++ (piece ++ (commentEnd ++ rest))) =
              (before.blanks ++ (commentStart ++ piece)) ++
                (commentEnd ++ rest) := by
          simp only [List.append_assoc]
        have line :
            (before.blanks ++ (commentStart ++ piece)) ++
                (commentEnd ++ restHead rest) =
              before.blanks ++
                (commentStart ++
                  (piece ++ (commentEnd ++ restHead rest))) := by
          simp only [List.append_assoc]
        rw [List.intercalate_singleton, whole,
          contentLines_commentEnd plainStart, effectiveLines_cons,
          line, readEnvLine_start before.areBlanks,
          stripEnvComments_end openPiece]
        rfl
      | cons next others =>
        have whole (later : Text) :
            before.blanks ++
                (commentStart ++
                  (piece ++ '\n' :: later ++ (commentEnd ++ rest))) =
              (before.blanks ++ (commentStart ++ piece)) ++
                '\n' :: (later ++ (commentEnd ++ rest)) := by
          simp only [List.append_assoc, List.cons_append]
        have last :
            (before.blanks ++ commentStart).getLast? = some '*' := by
          rw [List.getLast?_append]
          rfl
        have ends :
            (before.blanks ++ commentStart).getLast? ≠ some '\r' := by
          rw [last]
          decide
        have dropped :
            dropReturn (before.blanks ++ (commentStart ++ piece)) =
              before.blanks ++ (commentStart ++ dropReturn piece) := by
          rw [← List.append_assoc, dropReturn_append ends, List.append_assoc]
        have stays : ¬ commentEnd <:+: dropReturn piece := fun isIn =>
          openPiece (isIn.trans (dropReturn_isPrefixOf piece).isInfix)
        have later :
            effectiveLines true
                (contentLines
                  (['\n'].intercalate (next :: others) ++
                    (commentEnd ++ rest))) =
              afterRegion
                ((next :: others).dropLast.filterMap lineSpec,
                  (next :: others).getLast?.any beginsDirective)
                rest :=
          effectiveLines_pieces
            (fun part isIn => apart part (List.mem_cons_of_mem _ isIn))
            (fun part isIn => plain part (List.mem_cons_of_mem _ isIn))
            rest
        rw [Joined.intercalate_cons_cons, whole,
          contentLines_append_newline plainStart, effectiveLines_cons,
          dropped, readEnvLine_start before.areBlanks,
          stripEnvComments_inside stays]
        dsimp only
        rw [later]
        rfl
  unfold contentStatements BeforeComment.withRegion
  rw [contentLines_append before.whole, effectiveLines_append,
    before.closed, whole_region]

end DeveloperDashboard.Env
