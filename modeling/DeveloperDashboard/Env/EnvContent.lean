import DeveloperDashboard.Env.EnvLoader
import DeveloperDashboard.Library.Joined

namespace DeveloperDashboard.Env

open Library Perl

/-!
# The content of an env file

A file is read line by line.  Whether a comment is open is a matter of the
lines alone, so a load runs the statements of its lines one after the other,
and lines that say nothing can be left out.
-/

/-- `s/\r?\n\z//` on a line that ends with a newline, which is gone here. -/
def dropReturn (line : Text) : Text :=
  if line.getLast? = some '\r' then line.dropLast else line

/-- The lines that `<$fh>` reads, without what ends them. -/
def contentLines (content : Text) : List Text :=
  let pieces := content.splitOn '\n'
  pieces.dropLast.map dropReturn ++
    (pieces.getLast?.filter (· ≠ [])).toList

def EnvFile.ofContent (path content : Text) : EnvFile where
  path := path
  identity := path
  isFile := true
  lines := contentLines content

theorem contentLines_append_newline
    {line : Text} (plain : '\n' ∉ line) (rest : Text) :
    contentLines (line ++ '\n' :: rest) =
      dropReturn line :: contentLines rest := by
  have pieces :
      (line ++ '\n' :: rest).splitOn '\n' = line :: rest.splitOn '\n' := by
    rw [List.splitOn_append_cons_self, List.splitOn_eq_singleton plain]
    rfl
  unfold contentLines
  dsimp only
  rw [pieces]
  cases parts : rest.splitOn '\n' with
  | nil => exact absurd parts (List.splitOn_ne_nil _ _)
  | cons first others => rfl

theorem contentLines_of_plain
    {line : Text} (plain : '\n' ∉ line) (nonempty : line ≠ []) :
    contentLines line = [line] := by
  unfold contentLines
  rw [List.splitOn_eq_singleton plain]
  simp [nonempty]

theorem contentLines_append
    {front : Text} (whole : front = [] ∨ front.getLast? = some '\n')
    (rest : Text) :
    contentLines (front ++ rest) =
      contentLines front ++ contentLines rest := by
  rcases whole with rfl | ends
  · rfl
  · obtain ⟨lines, rfl⟩ := List.getLast?_eq_some_iff.mp ends
    have pieces (later : Text) :
        (lines ++ '\n' :: later).splitOn '\n' =
          lines.splitOn '\n' ++ later.splitOn '\n' :=
      List.splitOn_append_cons_self _ _
    have split (later : Text) :
        contentLines (lines ++ '\n' :: later) =
          (lines.splitOn '\n').map dropReturn ++ contentLines later := by
      unfold contentLines
      dsimp only
      rw [pieces, List.dropLast_append_of_ne_nil (List.splitOn_ne_nil _ _),
        List.getLast?_append_of_ne_nil _ (List.splitOn_ne_nil _ _),
        List.map_append, List.append_assoc]
    have empty : contentLines [] = [] := rfl
    rw [List.append_assoc, List.singleton_append, split, split, empty,
      List.append_nil]

inductive EnvEvent where
  | assigned (key value : Text)
  | included (spec : Text)

/-- The segments of a spec that `_resolve_targets` looks up. -/
def includeSegments (spec : Text) : List Text :=
  let dotted :=
    if ".*".toList.isSuffixOf spec then spec.take (spec.length - 2)
    else spec
  (dotted.splitOn '.').filter (· ≠ [])

/-- `_valid_segment`. -/
def isValidSegment (segment : Text) : Bool :=
  decide (segment ≠ [] ∧ segment ≠ ['.'] ∧ segment ≠ ['.', '.']) &&
    segment.all fun char =>
      decide (char ≠ '/' ∧ char ≠ '\\' ∧ 0x1F < char.toNat ∧
        char.toNat ≠ 0x7F)

/-- Whether a spec names skills; any other spec includes no file. -/
def namesSkills (spec : Text) : Bool :=
  !(includeSegments spec).isEmpty &&
    (includeSegments spec).all isValidSegment

section

variable (host : EnvHost) (file : Text)

def statementEvents (env : EnvLookup) : EnvStatement → List EnvEvent
  | .include' spec => if namesSkills spec then [.included spec] else []
  | .assign key value =>
    match expandEnvValue host file env host.depth value with
    | .ok expanded => [.assigned key expanded]
    | .error _ => []
  | _ => []

def linesEvents (state : LineState) : List Text → List EnvEvent
  | [] => []
  | line :: rest =>
    (if state.error.isSome then []
      else
        statementEvents host file state.env.lookup
          (readEnvLine state.inComment line).2) ++
      linesEvents (loadLine host file state line) rest

/-- What `_load_env_file` performs. -/
def loadEvents (content : Text) (env : Environment) : List EnvEvent :=
  linesEvents host file { env := env, inComment := false, error := none }
    (contentLines content)

/-- Whether `_load_env_file` dies. -/
def loadFails (content : Text) (env : Environment) : Bool :=
  (loadEnvFile host (EnvFile.ofContent file content) env).2.isSome

end

/-- The statements of some lines, and whether a comment is open after them. -/
def readLines (inComment : Bool) : List Text → Bool × List EnvStatement
  | [] => (inComment, [])
  | line :: rest =>
    let read := readEnvLine inComment line
    let later := readLines read.1 rest
    (later.1, read.2 :: later.2)

theorem readLines_append (inComment : Bool) (front back : List Text) :
    readLines inComment (front ++ back) =
      ((readLines (readLines inComment front).1 back).1,
        (readLines inComment front).2 ++
          (readLines (readLines inComment front).1 back).2) := by
  induction front generalizing inComment with
  | nil => rfl
  | cons line rest ih =>
    rw [List.cons_append, readLines, readLines, ih]
    rfl

def isEffective : EnvStatement → Bool
  | .blank => false
  | .include' spec => namesSkills spec
  | _ => true

/-- The effective statements of some lines, and whether a comment is open. -/
def effectiveLines (inComment : Bool) (lines : List Text) :
    Bool × List EnvStatement :=
  let read := readLines inComment lines
  (read.1, read.2.filter isEffective)

theorem effectiveLines_cons
    (inComment : Bool) (line : Text) (rest : List Text) :
    effectiveLines inComment (line :: rest) =
      ((effectiveLines (readEnvLine inComment line).1 rest).1,
        [(readEnvLine inComment line).2].filter isEffective ++
          (effectiveLines (readEnvLine inComment line).1 rest).2) := by
  have split (statement : EnvStatement) (later : List EnvStatement) :
      (statement :: later).filter isEffective =
        [statement].filter isEffective ++ later.filter isEffective :=
    List.filter_append [statement] later
  unfold effectiveLines
  rw [readLines]
  dsimp only
  rw [split]

theorem effectiveLines_append (inComment : Bool) (front back : List Text) :
    effectiveLines inComment (front ++ back) =
      ((effectiveLines (readLines inComment front).1 back).1,
        (effectiveLines inComment front).2 ++
          (effectiveLines (readLines inComment front).1 back).2) := by
  unfold effectiveLines
  rw [readLines_append]
  dsimp only
  rw [List.filter_append]

/-- A spec that names no skill includes nothing, as `_resolve_targets` says. -/
def EnvHost.ResolvesNames (host : EnvHost) : Prop :=
  ∀ spec env, namesSkills spec = false → host.includes spec env = ([], none)

section

variable {host : EnvHost} {file : Text}

def perform (host : EnvHost) (file : Text) (env : Environment) :
    List EnvStatement → List EnvEvent × Option EnvError
  | [] => ([], none)
  | statement :: rest =>
    let events := statementEvents host file env.lookup statement
    let after := runStatement host file env statement
    match after.2 with
    | some error => (events, some error)
    | none =>
      let later := perform host file after.1 rest
      (events ++ later.1, later.2)

theorem perform_cons_of_idle (resolves : host.ResolvesNames)
    (env : Environment) {statement : EnvStatement}
    (idle : isEffective statement = false) (rest : List EnvStatement) :
    perform host file env (statement :: rest) =
      perform host file env rest := by
  cases statement with
  | blank => rfl
  | include' spec =>
    have names : namesSkills spec = false := idle
    have nothing := resolves spec env.lookup names
    simp only [perform, statementEvents, runStatement, nothing, names,
      Bool.false_eq_true, if_false, List.nil_append]
    rfl
  | invalidLine line => cases idle
  | invalidKey key => cases idle
  | assign key value => cases idle

theorem perform_filter_isEffective (resolves : host.ResolvesNames)
    (env : Environment) (statements : List EnvStatement) :
    perform host file env (statements.filter isEffective) =
      perform host file env statements := by
  induction statements generalizing env with
  | nil => rfl
  | cons statement rest ih =>
    cases effective : isEffective statement with
    | false =>
      rw [List.filter_cons_of_neg (by rw [effective]; decide),
        perform_cons_of_idle resolves env effective,
        ih]
    | true =>
      rw [List.filter_cons_of_pos effective, perform, perform]
      simp only [ih]

theorem foldl_loadLine_of_dead
    {state : LineState} (dead : state.error.isSome = true)
    (lines : List Text) :
    lines.foldl (loadLine host file) state = state ∧
      linesEvents host file state lines = [] := by
  induction lines with
  | nil => exact ⟨rfl, rfl⟩
  | cons line rest ih =>
    have unchanged : loadLine host file state line = state := by
      unfold loadLine
      rw [if_pos dead]
    rw [List.foldl_cons, linesEvents, unchanged, if_pos dead]
    exact ih

theorem load_eq_perform
    (env : Environment) (inComment : Bool) (lines : List Text) :
    let start : LineState :=
      { env := env, inComment := inComment, error := none }
    let performed := perform host file env (readLines inComment lines).2
    let final := lines.foldl (loadLine host file) start
    linesEvents host file start lines = performed.1 ∧
      final.error = performed.2 ∧
      (performed.2 = none →
        final.inComment = (readLines inComment lines).1) := by
  induction lines generalizing env inComment with
  | nil => exact ⟨rfl, rfl, fun _ => rfl⟩
  | cons line rest ih =>
    intro start performed final
    have alive : start.error.isSome = false := rfl
    have next :
        loadLine host file start line =
          { env :=
              (runStatement host file env
                (readEnvLine inComment line).2).1
            inComment := (readEnvLine inComment line).1
            error :=
              (runStatement host file env
                (readEnvLine inComment line).2).2 } := rfl
    cases died :
        (runStatement host file env (readEnvLine inComment line).2).2 with
    | some error =>
      have dead :
          (loadLine host file start line).error.isSome = true := by
        rw [next, died]
        rfl
      obtain ⟨stays, silent⟩ :=
        @foldl_loadLine_of_dead host file _ dead rest
      have ending : final = loadLine host file start line := stays
      have stopped :
          performed =
            (statementEvents host file env.lookup
              (readEnvLine inComment line).2, some error) := by
        change perform host file env
          ((readEnvLine inComment line).2 :: _) = _
        rw [perform]
        dsimp only
        rw [died]
      refine ⟨?_, ?_, fun nothing => ?_⟩
      · rw [linesEvents, silent, List.append_nil, stopped]
        rfl
      · rw [ending, next, died, stopped]
      · rw [stopped] at nothing
        cases nothing
    | none =>
      obtain ⟨events, errors, open'⟩ :=
        ih
          (runStatement host file env (readEnvLine inComment line).2).1
          (readEnvLine inComment line).1
      rw [died] at next
      have goesOn :
          performed =
            (statementEvents host file env.lookup
                (readEnvLine inComment line).2 ++
              (perform host file
                (runStatement host file env
                  (readEnvLine inComment line).2).1
                (readLines (readEnvLine inComment line).1 rest).2).1,
              (perform host file
                (runStatement host file env
                  (readEnvLine inComment line).2).1
                (readLines (readEnvLine inComment line).1
                  rest).2).2) := by
        change perform host file env
          ((readEnvLine inComment line).2 :: _) = _
        rw [perform]
        dsimp only
        rw [died]
      have ending :
          final =
            rest.foldl (loadLine host file)
              (loadLine host file start line) := rfl
      refine ⟨?_, ?_, ?_⟩
      · rw [linesEvents, next, events, goesOn]
        rfl
      · rw [ending, next, errors, goesOn]
      · rw [ending, next, goesOn]
        exact open'

end

/-- The effective statements of a content, and whether a comment stays open. -/
def contentStatements (content : Text) : Bool × List EnvStatement :=
  effectiveLines false (contentLines content)

theorem loadEvents_eq {host : EnvHost} (resolves : host.ResolvesNames)
    (file content : Text) (env : Environment) :
    loadEvents host file content env =
      (perform host file env (contentStatements content).2).1 := by
  unfold loadEvents contentStatements effectiveLines
  rw [perform_filter_isEffective resolves]
  exact (load_eq_perform env false (contentLines content)).1

theorem loadFails_eq {host : EnvHost} (resolves : host.ResolvesNames)
    (file content : Text) (env : Environment) :
    loadFails host file content env =
      ((perform host file env (contentStatements content).2).2.isSome ||
        (contentStatements content).1) := by
  obtain ⟨-, errors, open'⟩ :=
    @load_eq_perform host file env false (contentLines content)
  unfold loadFails loadEnvFile contentStatements effectiveLines
    EnvFile.ofContent
  rw [perform_filter_isEffective resolves]
  dsimp only
  rw [errors]
  cases died :
      (perform host file env
        (readLines false (contentLines content)).2).2 with
  | some error => rfl
  | none =>
    rw [open' died]
    cases (readLines false (contentLines content)).1 <;> rfl

end DeveloperDashboard.Env
