import DeveloperDashboard.Env.CommentRegions

namespace DeveloperDashboard.Env

open Library Perl

/-!
# Includes in block comments

What a region says is what its directives say, so texts with the same
directives can replace each other in every file.  Texts with others can be told
apart: by the variables that the included skills set, or by whether the comment
ends.
-/

/-- The variable that the skills of `recordingHost` append their name to. -/
def recordName : Text :=
  ['T']

/-- A host whose skills append their name to a variable. -/
def recordingHost : EnvHost where
  depth := 1
  call _ _ := none
  includes spec env :=
    if namesSkills spec then
      ([(recordName, (env recordName).getD [] ++ (spec ++ ['>']))], none)
    else ([], none)
  decodeKeys _ := none

theorem recordingHost_resolvesNames : recordingHost.ResolvesNames := by
  intro spec env names
  unfold recordingHost
  dsimp only
  rw [names]
  rfl

/-- What the skills of `recordingHost` record. -/
def specsText (specs : List Text) : Text :=
  specs.flatMap (· ++ ['>'])

theorem splitOn_specsText {specs : List Text}
    (plain : ∀ spec ∈ specs, '>' ∉ spec) :
    (specsText specs).splitOn '>' = specs ++ [[]] := by
  induction specs with
  | nil => rfl
  | cons spec specs ih =>
    have text : specsText (spec :: specs) =
        spec ++ '>' :: specsText specs := by
      simp [specsText]
    rw [text, List.splitOn_append_cons_self_of_not_mem
      (plain spec List.mem_cons_self),
      ih
        fun other isIn => plain other (List.mem_cons_of_mem _ isIn)]
    rfl

theorem perform_includes
    (file : Text) (env : Environment) {specs : List Text}
    (name : ∀ spec ∈ specs, namesSkills spec = true)
    (later : List EnvStatement) :
    ∃ after : Environment,
      (after.lookup recordName).getD [] =
          (env.lookup recordName).getD [] ++ specsText specs ∧
        perform recordingHost file env
            (specs.map EnvStatement.include' ++ later) =
          (specs.map EnvEvent.included ++
              (perform recordingHost file after later).1,
            (perform recordingHost file after later).2) := by
  induction specs generalizing env with
  | nil =>
    refine ⟨env, ?_, rfl⟩
    exact (List.append_nil _).symm
  | cons spec specs ih =>
    have named := name spec List.mem_cons_self
    let recorded := (env.lookup recordName).getD [] ++ (spec ++ ['>'])
    obtain ⟨after, text, performs⟩ :=
      ih (env.store recordName recorded)
        (fun other isIn => name other (List.mem_cons_of_mem _ isIn))
    have runs :
        runStatement recordingHost file env (.include' spec) =
          (env.store recordName recorded, none) := by
      unfold runStatement recordingHost
      dsimp only
      rw [if_pos named]
      rfl
    refine ⟨after, ?_, ?_⟩
    · rw [text, Entries.lookup_store_self, Option.getD_some]
      simp only [recorded, specsText, List.flatMap_cons, List.append_assoc]
    · rw [List.map_cons, List.cons_append, perform]
      dsimp only
      rw [runs]
      dsimp only
      rw [performs, statementEvents, if_pos named]
      rfl

theorem lineSpec_plain {line spec : Text}
    (stated : lineSpec line = some spec) :
    namesSkills spec = true ∧ '>' ∉ spec := by
  obtain ⟨isTruthy, names⟩ := Option.filter_eq_some_iff.mp stated
  obtain ⟨directive, -⟩ := Option.filter_eq_some_iff.mp isTruthy
  exact ⟨names, not_mem_of_includeDirective directive⟩

theorem regionIncludes_plain (region : Text) :
    ∀ spec ∈ (regionIncludes region).1,
      namesSkills spec = true ∧ '>' ∉ spec := by
  intro spec isIn
  obtain ⟨line, -, stated⟩ := List.mem_filterMap.mp isIn
  exact lineSpec_plain stated

def atStart : BeforeComment where
  front := []
  blanks := []
  whole := Or.inl rfl
  closed := rfl
  areBlanks := rfl
  oneLine := List.not_mem_nil

/-- A line behind a comment that assigns what was recorded. -/
def assignsRecord : Text :=
  "\nW=$T".toList

def endsTwice : Text :=
  ">\n# */".toList

theorem afterRegion_assignsRecord (includes : List Text × Bool) :
    afterRegion includes assignsRecord =
      (false, includes.1.map EnvStatement.include' ++
          [.assign "W".toList "$T".toList]) := by
  have closes (begins : Bool) :
      closeLine begins (restHead assignsRecord) = (false, []) := by
    cases begins <;> rfl
  unfold afterRegion
  dsimp only
  rw [closes]
  rfl

theorem expandEnvValue_record (file : Text) (env : EnvLookup) :
    expandEnvValue recordingHost file env recordingHost.depth
        "$T".toList =
      .ok ((env recordName).getD []) := by
  have appended :
      expandEnvValue recordingHost file env recordingHost.depth
          "$T".toList =
        .ok ((env recordName).getD [] ++ []) := rfl
  rw [appended, List.append_nil]

theorem loadEvents_assignsRecord
    (file : Text) {region : Text} (open' : ¬ commentEnd <:+: region) :
    loadEvents recordingHost file
        (atStart.withRegion region assignsRecord) [] =
      (regionIncludes region).1.map EnvEvent.included ++
        [.assigned "W".toList (specsText (regionIncludes region).1)] := by
  obtain ⟨after, text, performs⟩ :=
    perform_includes file []
      (fun spec isIn => (regionIncludes_plain region spec isIn).1)
      [.assign "W".toList "$T".toList]
  have assigns :
      (perform recordingHost file after
          [.assign "W".toList "$T".toList]).1 =
        [.assigned "W".toList ((after.lookup recordName).getD [])] := by
    have expanded := expandEnvValue_record file after.lookup
    simp only [perform, statementEvents, runStatement, expanded,
      List.append_nil]
  have nothing : (contentStatements atStart.front).2 = [] := rfl
  rw [loadEvents_eq recordingHost_resolvesNames,
    contentStatements_withRegion atStart open', nothing, List.nil_append,
    afterRegion_assignsRecord, performs, assigns, text]
  rfl

/-- Whether a load dies at the second end of a comment. -/
theorem loadFails_endsTwice
    (file : Text) {region : Text} (open' : ¬ commentEnd <:+: region) :
    loadFails recordingHost file (atStart.withRegion region endsTwice) [] =
      !(regionIncludes region).2 := by
  have nothing : (contentStatements atStart.front).2 = [] := rfl
  have name := fun spec isIn => (regionIncludes_plain region spec isIn).1
  rw [loadFails_eq recordingHost_resolvesNames,
    contentStatements_withRegion atStart open', nothing, List.nil_append]
  cases begins : (regionIncludes region).2 with
  | true =>
    have stated :
        afterRegion (regionIncludes region) endsTwice =
          (false, (regionIncludes region).1.map EnvStatement.include' ++
              []) := by
      unfold afterRegion
      rw [begins]
      rfl
    obtain ⟨after, -, performs⟩ := perform_includes file [] name []
    rw [stated, performs]
    rfl
  | false =>
    have stated :
        afterRegion (regionIncludes region) endsTwice =
          (false, (regionIncludes region).1.map EnvStatement.include' ++
              [.invalidLine ['>']]) := by
      unfold afterRegion
      rw [begins]
      rfl
    obtain ⟨after, -, performs⟩ :=
      perform_includes file [] name [.invalidLine ['>']]
    rw [stated, performs]
    rfl

/--
Two texts can replace each other inside block comments exactly when the lines
that begin in them carry the same directives.
-/
theorem isInert_iff {old new : Text}
    (oldOpen : ¬ commentEnd <:+: old) (newOpen : ¬ commentEnd <:+: new) :
    IsInert old new ↔ regionIncludes old = regionIncludes new := by
  constructor
  · intro inert
    have assigned :=
      (inert recordingHost recordingHost_resolvesNames [] [] atStart
        assignsRecord).events
          (.assigned "W".toList (specsText (regionIncludes old).1))
    rw [loadEvents_assignsRecord [] oldOpen,
      loadEvents_assignsRecord [] newOpen] at assigned
    have isIn := assigned.mp
      (List.mem_append_right _ List.mem_cons_self)
    have sameText :
        specsText (regionIncludes old).1 =
          specsText (regionIncludes new).1 := by
      rcases List.mem_append.mp isIn with included | last
      · obtain ⟨spec, -, same⟩ := List.mem_map.mp included
        cases same
      · exact (EnvEvent.assigned.inj (List.mem_singleton.mp last)).2
    have sameSpecs :
        (regionIncludes old).1 = (regionIncludes new).1 := by
      have split := congrArg (List.splitOn '>') sameText
      rw [splitOn_specsText fun spec isIn =>
          (regionIncludes_plain old spec isIn).2,
        splitOn_specsText fun spec isIn =>
          (regionIncludes_plain new spec isIn).2] at split
      exact List.append_cancel_right split
    have fails :=
      (inert recordingHost recordingHost_resolvesNames [] [] atStart
        endsTwice).fails
    rw [loadFails_endsTwice [] oldOpen, loadFails_endsTwice [] newOpen,
      Bool.not_inj_iff] at fails
    exact Prod.ext sameSpecs fails
  · intro same host resolves file env before rest
    have stated :
        contentStatements (before.withRegion old rest) =
          contentStatements (before.withRegion new rest) := by
      rw [contentStatements_withRegion before oldOpen,
        contentStatements_withRegion before newOpen, same]
    constructor
    · intro event
      rw [loadEvents_eq resolves, loadEvents_eq resolves, stated]
    · rw [loadFails_eq resolves, loadFails_eq resolves, stated]

/-- A remark of several lines can replace one of a single line. -/
theorem isInert_iff_remark :
    IsInert " a remark ".toList "\n# another\nremark\n".toList :=
  (isInert_iff ((afterCommentEnd_eq_none_iff _).mp rfl)
    ((afterCommentEnd_eq_none_iff _).mp rfl)).mpr rfl

/-- A line inside a comment includes a skill. -/
theorem include_in_comment_runs :
    ¬ IsInert [] "\n# include <disk>\n".toList := by
  intro inert
  have included :=
    (inert recordingHost recordingHost_resolvesNames [] [] atStart
      []).events (.included "disk".toList)
  have isIn :
      EnvEvent.included "disk".toList ∈
        loadEvents recordingHost []
          (atStart.withRegion "\n# include <disk>\n".toList []) [] :=
    List.mem_cons_self
  cases included.mpr isIn

end DeveloperDashboard.Env
