import DeveloperDashboard.Env.EnvLoader
import DeveloperDashboard.Library.Joined

namespace DeveloperDashboard.Env

open Perl

/-!
# Values that are expanded once

A value is read once, from the left to the right, into its references and the
text between them.  `_expand_env_value` goes over a value twice instead, so the
second substitution also reads what the first one has put in.
-/

/-- The expressions that the substitution of `${…}` takes. -/
def bracesLookedUp : Nat → Text → List Text
  | _, [] => []
  | skip + 1, _ :: rest => bracesLookedUp skip rest
  | 0, char :: rest =>
    match bracedExpression (char :: rest) with
    | some expression =>
      expression :: bracesLookedUp (expression.length + 2) rest
    | none => bracesLookedUp 0 rest

def startsName (text : Text) : Bool :=
  text.head?.any isEnvStart

/-- The names that the substitution of `$NAME` looks up. -/
def namesLookedUp : Nat → Text → List Text
  | _, [] => []
  | skip + 1, _ :: rest => namesLookedUp skip rest
  | 0, char :: rest =>
    let name := rest.takeWhile isEnvChar
    if char = '$' && startsName rest then
      name :: namesLookedUp name.length rest
    else namesLookedUp 0 rest

structure EnvName where
  text : Text
  starts : startsName text = true
  chars : ∀ char ∈ text, isEnvChar char = true

variable {char : Char}

theorem isEnvChar_of_isEnvStart
    (starts : isEnvStart char = true) : isEnvChar char = true := by
  unfold isEnvStart at starts
  unfold isEnvChar Char.isAlphanum
  rw [Bool.or_eq_true] at starts ⊢
  rcases starts with letter | underscore
  · exact Or.inl (Bool.or_eq_true_iff.mpr (Or.inl letter))
  · exact Or.inr underscore

def nameOf (rest : Text) (starts : startsName rest = true) : EnvName where
  text := rest.takeWhile isEnvChar
  starts := by
    cases rest with
    | nil => cases starts
    | cons first others =>
      rw [List.takeWhile_cons_of_pos (isEnvChar_of_isEnvStart starts)]
      exact starts
  chars := fun _ member => List.mem_takeWhile_imp member

inductive Piece where
  | literal (char : Char)
  | bare (name : EnvName)
  | braced (expression : Text)
  | home

/-- Read a value, after the rest of a reference that was taken. -/
def piecesFrom : Nat → Text → List Piece
  | _, [] => []
  | skip + 1, _ :: rest => piecesFrom skip rest
  | 0, char :: rest =>
    match bracedExpression (char :: rest) with
    | some expression =>
      .braced expression :: piecesFrom (expression.length + 2) rest
    | none =>
      if starts : char = '$' ∧ startsName rest = true then
        .bare (nameOf rest starts.2) ::
          piecesFrom (nameOf rest starts.2).text.length rest
      else .literal char :: piecesFrom 0 rest

/-- What stands behind a leading `~`. -/
def tildeRest (value : Text) : Option Text :=
  match value with
  | '~' :: rest =>
    if rest = [] || rest.head? == some '/' then some rest else none
  | _ => none

def pieces (value : Text) : List Piece :=
  match tildeRest value with
  | some rest => .home :: piecesFrom 0 rest
  | none => piecesFrom 0 value

def Piece.expression? : Piece → Option Text
  | braced expression => some expression
  | _ => none

def Piece.name? : Piece → Option Text
  | bare name => some name.text
  | _ => none

/-- What is put in for a leading `~`. -/
def homeText (env : EnvLookup) : Text :=
  let home := (env "HOME".toList).getD []
  if isTrue home then home else ['~']

/-- A piece of which the expression has been expanded. -/
inductive Filled where
  | literal (char : Char)
  | bare (name : EnvName)
  | inserted (text : Text)

/-- Expand a piece; `expand` expands an expression. -/
def fillPiece (expand : Text → Except EnvError Text) (home : Text) :
    Piece → Except EnvError Filled
  | .literal char => .ok (.literal char)
  | .bare name => .ok (.bare name)
  | .braced expression => (expand expression).map .inserted
  | .home => .ok (.inserted home)

def fillPieces (expand : Text → Except EnvError Text) (home : Text) :
    List Piece → Except EnvError (List Filled)
  | [] => .ok []
  | piece :: rest => do
      let first ← fillPiece expand home piece
      let others ← fillPieces expand home rest
      return first :: others

def Filled.value (env : EnvLookup) : Filled → Text
  | literal char => [char]
  | bare name => (lookupEnvSymbol env name.text).getD []
  | inserted text => text

/-- What stands for a piece between the two substitutions. -/
def Filled.between : Filled → Text
  | literal char => [char]
  | bare name => '$' :: name.text
  | inserted text => text

def Filled.name? : Filled → Option Text
  | bare name => some name.text
  | _ => none

def betweenText (filled : List Filled) : Text :=
  filled.flatMap Filled.between

section Expanding

variable (host : EnvHost) (file : Text) (env : EnvLookup)

/-- The pieces of a value, where `expand` expands the defaults. -/
def filledPieces (expand : Text → Except EnvError Text) (value : Text) :
    Except EnvError (List Filled) :=
  fillPieces (expandBracedExpression host file env expand) (homeText env)
    (pieces value)

def expandOnce : Nat → Text → Except EnvError Text
  | 0, _ => .error .recursion
  | depth + 1, value =>
    (filledPieces host file env (expandOnce depth) value).map
      fun filled => filled.flatMap (Filled.value env)

def symbolValue (symbol : Text) : Except EnvError (Option Text) :=
  if "()".toList.isSuffixOf symbol then
    callEnvFunction host file env symbol
  else .ok (lookupEnvSymbol env symbol)

def usedDefault (expression : Text) : Option Text :=
  match symbolValue host file env (splitDefault expression).1 with
  | .error _ => none
  | .ok (some (_ :: _)) => none
  | .ok _ => (splitDefault expression).2

def usedDefaults (value : Text) : List Text :=
  ((pieces value).filterMap Piece.expression?).filterMap
    (usedDefault host file env)

/--
A call of `_expand_env_value` gives what the references of its value stand for,
and looks nothing else up.
-/
structure CallReadsOnce (depth : Nat) (value : Text) : Prop where
  text :
    expandEnvValue host file env (depth + 1) value =
      expandOnce host file env (depth + 1) value
  braces :
    bracesLookedUp 0 (expandHome env value) =
      (pieces value).filterMap Piece.expression?
  names :
    ∀ buffer,
      expandBraces
          (expandBracedExpression host file env
            (expandEnvValue host file env depth))
          0 (expandHome env value) = .ok buffer →
        namesLookedUp 0 buffer = (pieces value).filterMap Piece.name?

def SubstitutesOnce : Nat → Text → Prop
  | 0, _ => True
  | depth + 1, value =>
    CallReadsOnce host file env depth value ∧
      ∀ default ∈ usedDefaults host file env value,
        SubstitutesOnce depth default

end Expanding

/-- No name starts or goes on across the end of a piece. -/
def Seamless : List Filled → Prop
  | [] => True
  | .literal char :: rest =>
    (char = '$' → startsName (betweenText rest) = false) ∧ Seamless rest
  | .bare _ :: rest =>
    (betweenText rest).head?.any isEnvChar = false ∧ Seamless rest
  | .inserted text :: rest =>
    (∀ front back, text = front ++ '$' :: back →
      startsName (back ++ betweenText rest) = false) ∧ Seamless rest

/-- No reference in braces starts in what is put in for a leading `~`. -/
def HomeStartsNone (env : EnvLookup) (value : Text) : Prop :=
  ∀ rest, tildeRest value = some rest →
    ∀ front back, homeText env = front ++ back → back ≠ [] →
      bracedExpression (back ++ rest) = none

section Rescanning

variable (host : EnvHost) (file : Text) (env : EnvLookup)

structure PutsNothingRead (depth : Nat) (value : Text) : Prop where
  home : HomeStartsNone env value
  seams :
    ∀ filled,
      filledPieces host file env (expandOnce host file env depth) value =
          .ok filled →
        Seamless filled

def NothingRescanned : Nat → Text → Prop
  | 0, _ => True
  | depth + 1, value =>
    PutsNothingRead host file env depth value ∧
      ∀ default ∈ usedDefaults host file env value,
        NothingRescanned depth default

end Rescanning

variable {expression rest front : Text}

section Braces

variable {expand : Text → Except EnvError Text}

theorem bracedExpression_of_ne (other : char ≠ '$')
    (rest : Text) : bracedExpression (char :: rest) = none := by
  unfold bracedExpression
  split
  · next same => exact absurd (List.cons.inj same).1 other
  · rfl

theorem eq_of_bracedExpression {text : Text}
    (taken : bracedExpression text = some expression) :
    ∃ rest, text = '$' :: '\x7b' :: (expression ++ '\x7d' :: rest) ∧
      '\x7d' ∉ expression := by
  unfold bracedExpression at taken
  split at taken
  · next rest =>
      dsimp only at taken
      split at taken
      · next both =>
          obtain rfl := Option.some.inj taken
          have closed : '\x7d' ∈ rest := by
            rw [Bool.and_eq_true] at both
            exact List.contains_iff_mem.mp both.2
          have inside :
              '\x7d' ∉ rest.takeWhile (· ≠ '\x7d') := by
            intro member
            have apart := List.mem_takeWhile_imp member
            exact absurd apart (by decide)
          cases dropped : rest.dropWhile (· ≠ '\x7d') with
          | nil =>
            have all := List.dropWhile_eq_nil_iff.mp dropped _ closed
            exact absurd all (by decide)
          | cons first others =>
            have isEnd : first = '\x7d' := by
              have stops :=
                List.head?_dropWhile_not (· ≠ '\x7d') rest
              rw [dropped] at stops
              simpa using stops
            subst isEnd
            refine ⟨others, ?_, inside⟩
            rw [← dropped, List.takeWhile_append_dropWhile]
      · cases taken
  · cases taken

theorem expandBraces_cons_some
    (taken : bracedExpression (char :: rest) = some expression) :
    expandBraces expand 0 (char :: rest) =
      (expand expression).bind fun value =>
        (expandBraces expand (expression.length + 2) rest).map
          (value ++ ·) := by
  rw [expandBraces, taken]
  dsimp only
  cases expand expression with
  | error error => rfl
  | ok value =>
    cases expandBraces expand (expression.length + 2) rest with
    | error error => rfl
    | ok tail => rfl

theorem expandBraces_cons_none
    (other : bracedExpression (char :: rest) = none) :
    expandBraces expand 0 (char :: rest) =
      (expandBraces expand 0 rest).map (char :: ·) := by
  rw [expandBraces, other]
  dsimp only
  cases expandBraces expand 0 rest with
  | error error => rfl
  | ok tail => rfl

theorem expandBraces_drop (skip : Nat) (text : Text) :
    expandBraces expand skip text =
      expandBraces expand 0 (text.drop skip) := by
  induction skip generalizing text with
  | zero => rfl
  | succ skip ih =>
    cases text with
    | nil => rw [List.drop_nil, expandBraces, expandBraces]
    | cons char rest =>
      rw [expandBraces, List.drop_succ_cons, ih]

theorem expandBraces_append
    (none' : ∀ earlier later, front = earlier ++ later → later ≠ [] →
      bracedExpression (later ++ rest) = none) :
    expandBraces expand 0 (front ++ rest) =
      (expandBraces expand 0 rest).map (front ++ ·) := by
  induction front with
  | nil =>
    cases found : expandBraces expand 0 rest with
    | error error => rw [List.nil_append, found]; rfl
    | ok tail => rw [List.nil_append, found]; rfl
  | cons char others ih =>
    have later :=
      ih fun earlier later shape =>
        none' (char :: earlier) later (congrArg (char :: ·) shape)
    have here : bracedExpression (char :: (others ++ rest)) = none :=
      none' [] (char :: others) rfl (List.cons_ne_nil _ _)
    rw [List.cons_append, expandBraces_cons_none here, later]
    cases expandBraces expand 0 rest with
    | error error => rfl
    | ok tail => rfl

theorem bracedExpression_of_noDollar
    (noDollar : '$' ∉ front) (rest earlier later : Text)
    (shape : front = earlier ++ later) (nonempty : later ≠ []) :
    bracedExpression (later ++ rest) = none := by
  cases later with
  | nil => exact absurd rfl nonempty
  | cons char others =>
    refine bracedExpression_of_ne ?_ (others ++ rest)
    rintro rfl
    exact noDollar (shape ▸ List.mem_append_right _ List.mem_cons_self)

end Braces

theorem EnvName.noDollar (name : EnvName) : '$' ∉ name.text := by
  intro member
  exact absurd (name.chars _ member) (by decide)

theorem nameOf_append_drop (rest : Text) (starts : startsName rest = true) :
    (nameOf rest starts).text ++
        rest.drop (nameOf rest starts).text.length = rest := by
  have whole : rest.takeWhile isEnvChar ++ rest.dropWhile isEnvChar = rest :=
    List.takeWhile_append_dropWhile
  have dropped :
      rest.drop (rest.takeWhile isEnvChar).length =
        rest.dropWhile isEnvChar := by
    have left :=
      @List.drop_left _ (rest.takeWhile isEnvChar)
        (rest.dropWhile isEnvChar)
    rwa [whole] at left
  exact (congrArg _ dropped).trans whole

section Filling

variable {expand : Text → Except EnvError Text} {home : Text}

theorem fillPieces_cons (piece : Piece) (rest : List Piece) :
    fillPieces expand home (piece :: rest) =
      (fillPiece expand home piece).bind fun first =>
        (fillPieces expand home rest).map (first :: ·) := by
  rw [fillPieces]
  cases fillPiece expand home piece with
  | error error => rfl
  | ok first =>
    cases fillPieces expand home rest with
    | error error => rfl
    | ok others => rfl

theorem expandBraces_eq (skip : Nat) (text : Text) :
    expandBraces expand skip text =
      (fillPieces expand home (piecesFrom skip text)).map betweenText := by
  fun_induction piecesFrom skip text with
  | case1 skip =>
    rw [expandBraces]
    rfl
  | case2 skip char rest ih =>
    rw [expandBraces, ih]
  | case3 char rest expression taken ih =>
    rw [expandBraces_cons_some taken, ih, fillPieces_cons, fillPiece]
    cases expand expression with
    | error error => rfl
    | ok value =>
      cases fillPieces expand home
          (piecesFrom (expression.length + 2) rest) with
      | error error => rfl
      | ok filled => rfl
  | case4 char rest none' starts ih =>
    obtain ⟨rfl, starts⟩ := starts
    have passed :
        expandBraces expand 0 rest =
          (expandBraces expand (nameOf rest starts).text.length rest).map
            ((nameOf rest starts).text ++ ·) := by
      rw [expandBraces_drop (nameOf rest starts).text.length rest,
        ← expandBraces_append (bracedExpression_of_noDollar
          (nameOf rest starts).noDollar _), nameOf_append_drop]
    rw [expandBraces_cons_none none', passed, ih, fillPieces_cons, fillPiece]
    cases fillPieces expand home
        (piecesFrom (nameOf rest starts).text.length rest) with
    | error error => rfl
    | ok filled => rfl
  | case5 char rest none' apart ih =>
    rw [expandBraces_cons_none none', ih, fillPieces_cons, fillPiece]
    cases fillPieces expand home (piecesFrom 0 rest) with
    | error error => rfl
    | ok filled => rfl

/-- The bare references stay when the expressions are expanded. -/
theorem names_of_fillPieces {list : List Piece} {filled : List Filled}
    (done : fillPieces expand home list = .ok filled) :
    filled.filterMap Filled.name? = list.filterMap Piece.name? := by
  induction list generalizing filled with
  | nil =>
    obtain rfl := Except.ok.inj done
    rfl
  | cons piece rest ih =>
    rw [fillPieces_cons] at done
    cases first : fillPiece expand home piece with
    | error error =>
      rw [first] at done
      cases done
    | ok here =>
      cases others : fillPieces expand home rest with
      | error error =>
        rw [first, others] at done
        cases done
      | ok later =>
        rw [first, others] at done
        obtain rfl := Except.ok.inj done
        have same : here.name? = piece.name? := by
          cases piece with
          | literal char =>
            obtain rfl := Except.ok.inj first
            rfl
          | bare name =>
            obtain rfl := Except.ok.inj first
            rfl
          | braced expression =>
            rw [fillPiece] at first
            cases given : expand expression with
            | error error =>
              rw [given] at first
              cases first
            | ok value =>
              rw [given] at first
              obtain rfl := Except.ok.inj first
              rfl
          | home =>
            obtain rfl := Except.ok.inj first
            rfl
        rw [List.filterMap_cons, List.filterMap_cons, same, ih others]

end Filling

theorem bracesLookedUp_drop (skip : Nat) (text : Text) :
    bracesLookedUp skip text = bracesLookedUp 0 (text.drop skip) := by
  induction skip generalizing text with
  | zero => rfl
  | succ skip ih =>
    cases text with
    | nil => rw [List.drop_nil, bracesLookedUp, bracesLookedUp]
    | cons char rest =>
      rw [bracesLookedUp, List.drop_succ_cons, ih]

theorem bracesLookedUp_cons_none
    (other : bracedExpression (char :: rest) = none) :
    bracesLookedUp 0 (char :: rest) = bracesLookedUp 0 rest := by
  rw [bracesLookedUp, other]

theorem bracesLookedUp_append
    (none' : ∀ earlier later, front = earlier ++ later → later ≠ [] →
      bracedExpression (later ++ rest) = none) :
    bracesLookedUp 0 (front ++ rest) = bracesLookedUp 0 rest := by
  induction front with
  | nil => rfl
  | cons char others ih =>
    have here : bracedExpression (char :: (others ++ rest)) = none :=
      none' [] (char :: others) rfl (List.cons_ne_nil _ _)
    rw [List.cons_append, bracesLookedUp_cons_none here]
    exact ih fun earlier later shape =>
      none' (char :: earlier) later (congrArg (char :: ·) shape)

theorem bracesLookedUp_eq (skip : Nat) (text : Text) :
    bracesLookedUp skip text =
      (piecesFrom skip text).filterMap Piece.expression? := by
  fun_induction piecesFrom skip text with
  | case1 skip => rfl
  | case2 skip char rest ih =>
    rw [bracesLookedUp, ih]
  | case3 char rest expression taken ih =>
    rw [bracesLookedUp, taken]
    exact congrArg (expression :: ·) ih
  | case4 char rest none' starts ih =>
    obtain ⟨rfl, starts⟩ := starts
    have passed :
        bracesLookedUp 0 rest =
          bracesLookedUp (nameOf rest starts).text.length rest := by
      have whole :=
        bracesLookedUp_append (bracedExpression_of_noDollar
          (nameOf rest starts).noDollar
          (rest.drop (nameOf rest starts).text.length))
      rw [nameOf_append_drop] at whole
      rw [whole, bracesLookedUp_drop _ rest]
    rw [bracesLookedUp_cons_none none', passed, ih]
    rfl
  | case5 char rest none' apart ih =>
    rw [bracesLookedUp_cons_none none', ih]
    rfl

/-- The names behind the `$` of a text. -/
def bareReferences : Text → List Text
  | [] => []
  | char :: rest =>
    if char = '$' ∧ startsName rest = true then
      rest.takeWhile isEnvChar :: bareReferences rest
    else bareReferences rest

def referencesIn (follow : Text) : Text → List Text
  | [] => []
  | char :: rest =>
    if char = '$' ∧ startsName (rest ++ follow) = true then
      (rest ++ follow).takeWhile isEnvChar :: referencesIn follow rest
    else referencesIn follow rest

theorem bareReferences_append (front back : Text) :
    bareReferences (front ++ back) =
      referencesIn back front ++ bareReferences back := by
  induction front with
  | nil => rfl
  | cons char rest ih =>
    rw [List.cons_append, bareReferences, referencesIn, ih]
    split
    · rfl
    · rfl

theorem referencesIn_of_noDollar (noDollar : '$' ∉ front)
    (follow : Text) : referencesIn follow front = [] := by
  induction front with
  | nil => rfl
  | cons char rest ih =>
    have other : char ≠ '$' := Ne.symm (List.ne_of_not_mem_cons noDollar)
    rw [referencesIn, if_neg (fun both => other both.1)]
    exact ih (List.not_mem_of_not_mem_cons noDollar)

theorem referencesIn_eq_nil_iff {follow : Text} :
    referencesIn follow front = [] ↔
      ∀ earlier later, front = earlier ++ '$' :: later →
        startsName (later ++ follow) = false := by
  induction front with
  | nil =>
    refine iff_of_true rfl fun earlier later shape => ?_
    cases earlier <;> cases shape
  | cons char rest ih =>
    rw [referencesIn]
    split
    · next both =>
        obtain ⟨rfl, starts⟩ := both
        refine iff_of_false (List.cons_ne_nil _ _) fun none' => ?_
        rw [none' [] rest rfl] at starts
        cases starts
    · next apart =>
        rw [ih]
        constructor
        · intro none' earlier later shape
          cases earlier with
          | nil =>
            obtain ⟨rfl, rfl⟩ := List.cons.inj shape
            exact Bool.eq_false_iff.mpr fun starts =>
              apart ⟨rfl, starts⟩
          | cons first others =>
            exact none' others later (List.cons.inj shape).2
        · intro none' earlier later shape
          exact none' (char :: earlier) later
            (congrArg (char :: ·) shape)

theorem namesLookedUp_eq {skip : Nat} {text : Text}
    (noDollar : '$' ∉ text.take skip) :
    namesLookedUp skip text = bareReferences text := by
  induction text generalizing skip with
  | nil => rw [namesLookedUp, bareReferences]
  | cons char rest ih =>
    cases skip with
    | succ skip =>
      rw [List.take_succ_cons, List.mem_cons, not_or] at noDollar
      rw [namesLookedUp, ih noDollar.2, bareReferences,
        if_neg (fun both => noDollar.1 both.1.symm)]
    | zero =>
      rw [namesLookedUp, bareReferences]
      have none' : '$' ∉ rest.take 0 := List.not_mem_nil
      by_cases both : char = '$' ∧ startsName rest = true
      · have name :
            rest.take (rest.takeWhile isEnvChar).length =
              rest.takeWhile isEnvChar :=
          List.prefix_iff_eq_take.mp (List.takeWhile_prefix _) |>.symm
        have noDollars :
            '$' ∉ rest.take (rest.takeWhile isEnvChar).length := by
          rw [name]
          exact (nameOf rest both.2).noDollar
        rw [if_pos both, if_pos (by simp [both.1, both.2]), ih noDollars]
      · rw [if_neg both, if_neg (by simpa using both), ih none']

theorem betweenText_cons (piece : Filled) (rest : List Filled) :
    betweenText (piece :: rest) = piece.between ++ betweenText rest :=
  List.flatMap_cons

theorem EnvName.takeWhile_append (name : EnvName) (follow : Text) :
    (name.text ++ follow).takeWhile isEnvChar =
      name.text ++ follow.takeWhile isEnvChar :=
  List.takeWhile_append_of_pos name.chars

theorem EnvName.startsName_append (name : EnvName) (follow : Text) :
    startsName (name.text ++ follow) = true := by
  have starts := name.starts
  cases shape : name.text with
  | nil =>
    rw [shape] at starts
    cases starts
  | cons first others =>
    rw [shape] at starts
    exact starts

theorem bareReferences_betweenText_cons (piece : Filled)
    (rest : List Filled) :
    bareReferences (betweenText (piece :: rest)) =
      referencesIn (betweenText rest) piece.between ++
        bareReferences (betweenText rest) := by
  rw [betweenText_cons, bareReferences_append]

theorem referencesIn_bare (name : EnvName) (follow : Text) :
    referencesIn follow (Filled.bare name).between =
      [name.text ++ follow.takeWhile isEnvChar] := by
  rw [Filled.between, referencesIn,
    if_pos ⟨rfl, name.startsName_append follow⟩, name.takeWhile_append,
    referencesIn_of_noDollar name.noDollar]

theorem names_bare (name : EnvName) (rest : List Filled) :
    (Filled.bare name :: rest).filterMap Filled.name? =
      name.text :: rest.filterMap Filled.name? :=
  rfl

theorem length_names_le (filled : List Filled) :
    (filled.filterMap Filled.name?).length ≤
      (bareReferences (betweenText filled)).length := by
  induction filled with
  | nil => exact Nat.le_refl 0
  | cons piece rest ih =>
    rw [bareReferences_betweenText_cons, List.length_append]
    cases piece with
    | bare name =>
      rw [referencesIn_bare, List.length_singleton, names_bare,
        List.length_cons]
      omega
    | literal char =>
      rw [List.filterMap_cons_none rfl]
      omega
    | inserted text =>
      rw [List.filterMap_cons_none rfl]
      omega

theorem append_eq_names_iff {extra : List Text} {rest : List Filled} :
    extra ++ bareReferences (betweenText rest) =
        rest.filterMap Filled.name? ↔
      extra = [] ∧
        bareReferences (betweenText rest) =
          rest.filterMap Filled.name? := by
  constructor
  · intro same
    have none' : extra = [] := by
      have lengths := congrArg List.length same
      rw [List.length_append] at lengths
      have atLeast := length_names_le rest
      exact List.length_eq_zero_iff.mp (by omega)
    rw [none', List.nil_append] at same
    exact ⟨none', same⟩
  · rintro ⟨rfl, same⟩
    exact same

theorem takeWhile_eq_nil_iff {text : Text} :
    text.takeWhile isEnvChar = [] ↔ text.head?.any isEnvChar = false := by
  cases text with
  | nil => exact iff_of_true rfl rfl
  | cons char rest =>
    cases goesOn : isEnvChar char with
    | true =>
      rw [List.takeWhile_cons_of_pos goesOn]
      exact iff_of_false (List.cons_ne_nil _ _)
        (fun stops => Bool.false_ne_true (stops.symm.trans goesOn))
    | false =>
      rw [List.takeWhile_cons_of_neg (Bool.eq_false_iff.mp goesOn)]
      exact iff_of_true rfl goesOn

/-- The bare references are all that is looked up where no name crosses. -/
theorem bareReferences_eq_iff (filled : List Filled) :
    bareReferences (betweenText filled) =
        filled.filterMap Filled.name? ↔
      Seamless filled := by
  induction filled with
  | nil => exact iff_of_true rfl trivial
  | cons piece rest ih =>
    rw [bareReferences_betweenText_cons]
    cases piece with
    | literal char =>
      rw [List.filterMap_cons_none rfl, append_eq_names_iff,
        ih, Seamless, Filled.between,
        referencesIn_eq_nil_iff]
      refine and_congr_left fun _ => ?_
      constructor
      · intro none' dollar
        exact none' [] [] (congrArg ([·]) dollar)
      · intro none' earlier later shape
        cases earlier with
        | nil =>
          obtain ⟨rfl, rfl⟩ := List.cons.inj shape
          exact none' rfl
        | cons first others =>
          cases others <;> cases (List.cons.inj shape).2
    | bare name =>
      rw [referencesIn_bare, names_bare, List.singleton_append,
        List.cons.injEq, ih, Seamless,
        List.append_right_eq_self, takeWhile_eq_nil_iff]
    | inserted text =>
      rw [List.filterMap_cons_none rfl, append_eq_names_iff,
        ih, Seamless, Filled.between,
        referencesIn_eq_nil_iff]

section Names

variable {env : EnvLookup}

theorem expandNames_drop (skip : Nat) (text : Text) :
    expandNames env skip text = expandNames env 0 (text.drop skip) := by
  induction skip generalizing text with
  | zero => rfl
  | succ skip ih =>
    cases text with
    | nil => rw [List.drop_nil, expandNames, expandNames]
    | cons char rest =>
      rw [expandNames, List.drop_succ_cons, ih]

theorem expandNames_append {follow : Text}
    (none' : referencesIn follow front = []) :
    expandNames env 0 (front ++ follow) =
      front ++ expandNames env 0 follow := by
  induction front with
  | nil => rfl
  | cons char rest ih =>
    rw [referencesIn] at none'
    split at none'
    · cases none'
    · next apart =>
        have kept :
            ¬(decide (char = '$') &&
              (rest ++ follow).head?.any isEnvStart) = true := by
          rw [Bool.and_eq_true, decide_eq_true_eq]
          exact apart
        rw [List.cons_append, expandNames, if_neg kept, ih none']
        rfl

theorem expandNames_bare (name : EnvName) {follow : Text}
    (stops : follow.head?.any isEnvChar = false) :
    expandNames env 0 ('$' :: (name.text ++ follow)) =
      (lookupEnvSymbol env name.text).getD [] ++
        expandNames env 0 follow := by
  have taken :
      (name.text ++ follow).takeWhile isEnvChar = name.text := by
    rw [name.takeWhile_append, takeWhile_eq_nil_iff.mpr stops,
      List.append_nil]
  have starts : (name.text ++ follow).head?.any isEnvStart = true :=
    name.startsName_append follow
  rw [expandNames, if_pos (by rw [starts]; rfl), taken,
    expandNames_drop name.text.length, List.drop_left]

/-- The second substitution replaces the bare references. -/
theorem expandNames_betweenText {filled : List Filled}
    (seamless : Seamless filled) :
    expandNames env 0 (betweenText filled) =
      filled.flatMap (Filled.value env) := by
  induction filled with
  | nil => rfl
  | cons piece rest ih =>
    rw [betweenText_cons, List.flatMap_cons]
    cases piece with
    | literal char =>
      have none' : referencesIn (betweenText rest) [char] = [] := by
        refine referencesIn_eq_nil_iff.mpr fun earlier later shape => ?_
        cases earlier with
        | nil =>
          obtain ⟨rfl, rfl⟩ := List.cons.inj shape
          exact seamless.1 rfl
        | cons first others =>
          cases others <;> cases (List.cons.inj shape).2
      rw [← ih seamless.2]
      exact expandNames_append none'
    | bare name =>
      rw [← ih seamless.2]
      exact expandNames_bare name seamless.1
    | inserted text =>
      rw [← ih seamless.2]
      exact expandNames_append
        (referencesIn_eq_nil_iff.mpr seamless.1)

end Names

theorem expandHome_of_tildeRest {env : EnvLookup} {value : Text}
    (tilde : tildeRest value = some rest) :
    expandHome env value = homeText env ++ rest := by
  unfold tildeRest at tilde
  split at tilde
  · next others =>
      split at tilde
      · next ends =>
          obtain rfl := Option.some.inj tilde
          exact if_pos (by simpa using ends)
      · cases tilde
  · cases tilde

theorem expandHome_of_not_tilde {env : EnvLookup} {value : Text}
    (noTilde : tildeRest value = none) : expandHome env value = value := by
  unfold tildeRest at noTilde
  split at noTilde
  · next others =>
      split at noTilde
      · cases noTilde
      · next goesOn => exact if_neg (by simpa using goesOn)
  · next other =>
      unfold expandHome
      split
      · next others => exact absurd rfl (other others)
      · rfl

theorem bracesLookedUp_of_taken {text : Text}
    (taken : bracedExpression text = some expression) :
    ∃ later, text = '$' :: '\x7b' :: (expression ++ '\x7d' :: later) ∧
      '\x7d' ∉ expression ∧
      bracesLookedUp 0 text = expression :: bracesLookedUp 0 later := by
  obtain ⟨later, rfl, inside⟩ := eq_of_bracedExpression taken
  refine ⟨later, rfl, inside, ?_⟩
  rw [bracesLookedUp, taken]
  dsimp only
  rw [bracesLookedUp_drop]
  simp

/-- An expression ends at the first brace behind it. -/
theorem bracesLookedUp_of_brace (noBrace : '\x7d' ∉ front) (back : Text) :
    bracesLookedUp 0 (front ++ '\x7d' :: back) = bracesLookedUp 0 back ∨
      ∃ expression, expression.length + 2 ≤ front.length ∧
        bracesLookedUp 0 (front ++ '\x7d' :: back) =
          expression :: bracesLookedUp 0 back := by
  induction front with
  | nil =>
    exact Or.inl (bracesLookedUp_cons_none
      (bracedExpression_of_ne (by decide) back))
  | cons char rest ih =>
    cases taken :
        bracedExpression (char :: (rest ++ '\x7d' :: back)) with
    | none =>
      rw [List.cons_append, bracesLookedUp_cons_none taken]
      rcases ih
          (List.not_mem_of_not_mem_cons noBrace) with
        same | ⟨expression, length, same⟩
      · exact Or.inl same
      · refine Or.inr ⟨expression, ?_, same⟩
        rw [List.length_cons]
        omega
    | some expression =>
      obtain ⟨later, shape, inside, looked⟩ :=
        bracesLookedUp_of_taken taken
      have others :
          rest ++ '\x7d' :: back =
            ('\x7b' :: expression) ++ '\x7d' :: later :=
        (List.cons.inj shape).2
      have insides : '\x7d' ∉ '\x7b' :: expression := by
        rw [List.mem_cons, not_or]
        exact ⟨by decide, inside⟩
      obtain ⟨rfl, rfl⟩ :=
        Library.Joined.eq_of_append_cons
          (List.not_mem_of_not_mem_cons noBrace)
          insides others
      exact Or.inr ⟨expression, by simp, looked⟩

theorem bracesLookedUp_of_crossing {first : Char} {others inner later : Text}
    (crossing :
      (first :: others) ++ inner = '$' :: '\x7b' :: expression)
    (noBrace : '\x7d' ∉ inner) :
    (bracesLookedUp 0 (inner ++ '\x7d' :: later)).length ≤
        (expression :: bracesLookedUp 0 later).length ∧
      expression :: bracesLookedUp 0 later ≠
        bracesLookedUp 0 (inner ++ '\x7d' :: later) := by
  have lengths := congrArg List.length crossing
  rw [List.length_append, List.length_cons, List.length_cons,
    List.length_cons] at lengths
  rcases bracesLookedUp_of_brace noBrace later with
    same | ⟨shorter, length, same⟩
  · rw [same]
    refine ⟨Nat.le_succ _, fun equal => ?_⟩
    have sizes := congrArg List.length equal
    rw [List.length_cons] at sizes
    omega
  · rw [same]
    refine ⟨Nat.le_refl _, fun equal => ?_⟩
    have sizes := congrArg List.length (List.cons.inj equal).1
    omega

theorem startsNone_of_bracesLookedUp (front rest : Text) :
    (bracesLookedUp 0 rest).length ≤
        (bracesLookedUp 0 (front ++ rest)).length ∧
      (bracesLookedUp 0 (front ++ rest) = bracesLookedUp 0 rest →
        ∀ earlier later, front = earlier ++ later → later ≠ [] →
          bracedExpression (later ++ rest) = none) := by
  induction size : front.length using Nat.strong_induction_on
    generalizing front with
  | _ size' ih =>
    subst size
    cases front with
    | nil =>
      refine ⟨Nat.le_refl _, fun _ earlier later shape nonempty => ?_⟩
      exact absurd (List.append_eq_nil_iff.mp shape.symm).2 nonempty
    | cons first others =>
      cases taken : bracedExpression (first :: (others ++ rest)) with
      | none =>
        obtain ⟨length, ofEq⟩ :=
          ih others.length (Nat.lt_succ_self _)
            others rfl
        rw [List.cons_append, bracesLookedUp_cons_none taken]
        refine ⟨length, fun same earlier later shape nonempty => ?_⟩
        cases earlier with
        | nil =>
          rw [← show first :: others = later from shape]
          exact taken
        | cons other more =>
          exact ofEq same more later (List.cons.inj shape).2
            nonempty
      | some expression =>
        obtain ⟨later, shape, inside, looked⟩ :=
          bracesLookedUp_of_taken taken
        have cut :
            (first :: others) ++ rest =
              ('$' :: '\x7b' :: expression) ++ '\x7d' :: later :=
          shape
        have longer :
            (bracesLookedUp 0 rest).length ≤
                (expression :: bracesLookedUp 0 later).length ∧
              expression :: bracesLookedUp 0 later ≠
                bracesLookedUp 0 rest := by
          rcases List.append_eq_append_iff.mp cut with
            ⟨inner, whole, behind⟩ | ⟨inner, whole, behind⟩
          · rw [behind]
            refine bracesLookedUp_of_crossing whole.symm ?_
            intro member
            have among : '\x7d' ∈ '$' :: '\x7b' :: expression :=
              whole ▸ List.mem_append_right _ member
            simp [inside] at among
          · cases inner with
            | nil =>
              rw [← show '\x7d' :: later = rest from behind]
              rw [List.append_nil] at whole
              have crossing :
                  (first :: others) ++ [] =
                    '$' :: '\x7b' :: expression :=
                (List.append_nil _).trans whole
              exact bracesLookedUp_of_crossing crossing
                List.not_mem_nil
            | cons brace more =>
              have left : later = more ++ rest :=
                (List.cons.inj behind).2
              subst left
              have shorter :
                  more.length < (first :: others).length := by
                rw [whole]
                simp only [List.length_append, List.length_cons]
                omega
              obtain ⟨length, -⟩ :=
                ih more.length shorter more rfl
              rw [List.length_cons]
              refine ⟨Nat.le_succ_of_le length, fun equal => ?_⟩
              have sizes := congrArg List.length equal
              rw [List.length_cons] at sizes
              omega
        rw [List.cons_append, looked]
        exact ⟨longer.1, fun same => absurd same longer.2⟩

theorem bracesLookedUp_expandHome_iff {env : EnvLookup} {value : Text} :
    bracesLookedUp 0 (expandHome env value) =
        (pieces value).filterMap Piece.expression? ↔
      HomeStartsNone env value := by
  unfold pieces HomeStartsNone
  cases tilde : tildeRest value with
  | none =>
    rw [expandHome_of_not_tilde tilde]
    exact iff_of_true (bracesLookedUp_eq 0 value)
      fun rest other => absurd other (Option.some_ne_none rest).symm
  | some rest =>
    rw [expandHome_of_tildeRest tilde]
    have read :
        (Piece.home :: piecesFrom 0 rest).filterMap
            Piece.expression? = bracesLookedUp 0 rest :=
      (bracesLookedUp_eq 0 rest).symm
    dsimp only
    rw [read]
    constructor
    · rintro same _ ⟨⟩
      exact (startsNone_of_bracesLookedUp (homeText env) rest).2 same
    · intro none'
      exact bracesLookedUp_append (none' rest rfl)

theorem expandBraces_expandHome {env : EnvLookup} {value : Text}
    {expand : Text → Except EnvError Text}
    (home : HomeStartsNone env value) :
    expandBraces expand 0 (expandHome env value) =
      (fillPieces expand (homeText env) (pieces value)).map
        betweenText := by
  unfold pieces
  cases tilde : tildeRest value with
  | none =>
    rw [expandHome_of_not_tilde tilde]
    exact expandBraces_eq 0 value
  | some rest =>
    rw [expandHome_of_tildeRest tilde, expandBraces_append (home rest tilde),
      @expandBraces_eq expand (homeText env) 0 rest]
    dsimp only
    rw [fillPieces_cons, fillPiece]
    cases fillPieces expand (homeText env) (piecesFrom 0 rest) with
    | error error => rfl
    | ok filled => rfl

section Values

variable {host : EnvHost} {file : Text} {env : EnvLookup}

def valueOr (expand : Text → Except EnvError Text) (value : Option Text)
    (default : Option Text) : Except EnvError Text :=
  match value, default with
  | some (char :: rest), _ => .ok (char :: rest)
  | _, some text => expand text
  | _, none => .ok []

theorem expandBracedExpression_eq (expand : Text → Except EnvError Text)
    (expression : Text) :
    expandBracedExpression host file env expand expression =
      (symbolValue host file env (splitDefault expression).1).bind
        fun value => valueOr expand value (splitDefault expression).2 := by
  unfold expandBracedExpression symbolValue
  rcases splitDefault expression with ⟨symbol, default⟩
  dsimp only
  split
  · cases callEnvFunction host file env symbol with
    | error error => rfl
    | ok value => rfl
  · rfl

theorem expandBracedExpression_congr
    {expand other : Text → Except EnvError Text}
    (same : ∀ default, usedDefault host file env expression = some default →
        expand default = other default) :
    expandBracedExpression host file env expand expression =
      expandBracedExpression host file env other expression := by
  rw [expandBracedExpression_eq, expandBracedExpression_eq]
  unfold usedDefault at same
  cases given :
      symbolValue host file env (splitDefault expression).1 with
  | error error => rfl
  | ok value =>
    rw [given] at same
    generalize (splitDefault expression).2 = default at same ⊢
    cases default with
    | none =>
      cases value with
      | none => rfl
      | some found => cases found <;> rfl
    | some text =>
      cases value with
      | none => exact same text rfl
      | some found =>
        cases found with
        | nil => exact same text rfl
        | cons char rest => rfl

theorem fillPieces_congr {expand other : Text → Except EnvError Text}
    {home : Text} {list : List Piece}
    (same : ∀ expression ∈ list.filterMap Piece.expression?,
      expand expression = other expression) :
    fillPieces expand home list = fillPieces other home list := by
  induction list with
  | nil => rfl
  | cons piece rest ih =>
    have later :=
      ih fun expression member => by
        obtain ⟨found, among, isOne⟩ := List.mem_filterMap.mp member
        exact same expression (List.mem_filterMap.mpr
          ⟨found, List.mem_cons_of_mem _ among, isOne⟩)
    rw [fillPieces_cons, fillPieces_cons, later]
    cases piece with
    | braced expression =>
      rw [fillPiece, fillPiece, same expression List.mem_cons_self]
    | _ => rfl

theorem SubstitutesOnce.text {depth : Nat} {value : Text}
    (once : SubstitutesOnce host file env depth value) :
    expandEnvValue host file env depth value =
      expandOnce host file env depth value := by
  cases depth with
  | zero => rfl
  | succ depth => exact once.1.text

theorem callReadsOnce_iff {depth : Nat} {value : Text}
    (inner : ∀ default ∈ usedDefaults host file env value,
      expandEnvValue host file env depth default =
        expandOnce host file env depth default) :
    CallReadsOnce host file env depth value ↔
      PutsNothingRead host file env depth value := by
  have filledAlike :
      filledPieces host file env (expandEnvValue host file env depth)
          value =
        filledPieces host file env (expandOnce host file env depth)
          value := by
    refine fillPieces_congr fun expression member => ?_
    refine expandBracedExpression_congr fun default used => ?_
    exact inner default
      (List.mem_filterMap.mpr ⟨expression, member, used⟩)
  have named : ∀ filled,
      filledPieces host file env (expandOnce host file env depth) value =
          .ok filled →
        (namesLookedUp 0 (betweenText filled) =
            (pieces value).filterMap Piece.name? ↔
          Seamless filled) := by
    intro filled done
    rw [namesLookedUp_eq List.not_mem_nil, ← names_of_fillPieces done]
    exact bareReferences_eq_iff filled
  have between : HomeStartsNone env value →
      expandBraces
          (expandBracedExpression host file env
            (expandEnvValue host file env depth))
          0 (expandHome env value) =
        (filledPieces host file env (expandOnce host file env depth)
          value).map betweenText := by
    intro home
    rw [← filledAlike]
    exact expandBraces_expandHome home
  constructor
  · intro once
    have home := bracesLookedUp_expandHome_iff.mp once.braces
    refine ⟨home, fun filled done => (named filled done).mp ?_⟩
    refine once.names _ ?_
    rw [between home, done]
    rfl
  · intro nothing
    refine ⟨?_, bracesLookedUp_expandHome_iff.mpr nothing.home, ?_⟩
    · rw [expandEnvValue, expandOnce, between nothing.home]
      cases done :
          filledPieces host file env (expandOnce host file env depth)
            value with
      | error error => rfl
      | ok filled =>
        exact congrArg Except.ok
          (expandNames_betweenText (nothing.seams filled done))
    · intro buffer given
      rw [between nothing.home] at given
      cases done :
          filledPieces host file env (expandOnce host file env depth)
            value with
      | error error =>
        rw [done] at given
        cases given
      | ok filled =>
        rw [done] at given
        obtain rfl := Except.ok.inj given
        exact (named filled done).mpr (nothing.seams filled done)

/--
A value is expanded once if and only if no text that is put in, for it or for a
default of it, is part of a reference.
-/
theorem substitutesOnce_iff (host : EnvHost) (file : Text)
    (env : EnvLookup) (depth : Nat) (value : Text) :
    SubstitutesOnce host file env depth value ↔
      NothingRescanned host file env depth value := by
  induction depth generalizing value with
  | zero => exact Iff.rfl
  | succ depth ih =>
    constructor
    · rintro ⟨once, defaults⟩
      refine ⟨?_, fun default used =>
        (ih default).mp (defaults default used)⟩
      exact (callReadsOnce_iff fun default used =>
        (defaults default used).text).mp once
    · rintro ⟨nothing, defaults⟩
      have inner : ∀ default ∈ usedDefaults host file env value,
          SubstitutesOnce host file env depth default :=
        fun default used =>
          (ih default).mpr (defaults default used)
      exact ⟨(callReadsOnce_iff fun default used =>
        (inner default used).text).mpr nothing, inner⟩

end Values

/-- Nothing is called, included or decoded. -/
def quietHost : EnvHost where
  depth := 2
  call := fun _ _ => none
  includes := fun _ _ => ([], none)
  decodeKeys := fun _ => none

/-- A variable with a reference in its value, and the one it refers to. -/
def nestedEnv : EnvLookup :=
  fun name =>
    if name = "FOO".toList then some "$BAR".toList
    else if name = "BAR".toList then some "x".toList
    else none

/-- The value of a reference in braces is scanned again. -/
theorem braced_value_is_rescanned :
    ¬SubstitutesOnce quietHost [] nestedEnv 2 "$\x7bFOO\x7d".toList ∧
      expandEnvValue quietHost [] nestedEnv 2 "$FOO".toList =
        .ok "$BAR".toList ∧
      expandEnvValue quietHost [] nestedEnv 2 "$\x7bFOO\x7d".toList =
        .ok "x".toList := by
  refine ⟨fun once => ?_, by decide +kernel, by decide +kernel⟩
  exact absurd once.1.text (by decide +kernel)

end DeveloperDashboard.Env
