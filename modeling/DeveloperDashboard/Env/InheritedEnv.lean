import DeveloperDashboard.Env.EnvLoader

namespace DeveloperDashboard.Env

open Library Perl

/-!
# Exported variables against env files

The saved variables are put back after a file, or after a whole list of files;
until then a value is expanded in the live environment.  The module compares a
load with the load of the same files without the assignments to exported keys.
-/

def assignsTo (keys : Text → Bool) : EnvStatement → Bool
  | .assign key _ => keys key
  | _ => false

/--
The lines without the assignments to the keys.  Where such a line also ends a
block comment, that end stays.
-/
def withoutAssignments (keys : Text → Bool) :
    Bool → List Text → List Text
  | _, [] => []
  | inComment, line :: rest =>
    let read := readEnvLine inComment line
    if assignsTo keys read.2 then
      (if inComment then ["*/".toList] else []) ++
        withoutAssignments keys read.1 rest
    else line :: withoutAssignments keys read.1 rest

def EnvFile.without (keys : Text → Bool) (file : EnvFile) : EnvFile :=
  { file with lines := withoutAssignments keys false file.lines }

def SkillLayer.without (keys : Text → Bool) (layer : SkillLayer) :
    SkillLayer :=
  { layer with file := layer.file.without keys }

/-- Whether a key is one that the caller exported and the marker lists. -/
def isInherited (host : EnvHost) (env : EnvLookup) (key : Text) : Bool :=
  match captureInheritedEnv host env with
  | .ok saved =>
    decide (key ≠ inheritedEnvKeys) &&
      (saved.map Prod.fst).contains key
  | .error _ => false

/-- The live environment with some keys as they were before. -/
def inheritedView
    (keys : Text → Bool) (before env : EnvLookup) : EnvLookup :=
  fun key => if keys key then before key else env key

section Conditions

variable (host : EnvHost) (keys : Text → Bool)

/--
A value comes out as it would with the exported keys put back.  The value of an
exported key itself only has to be expanded without an error.  An included
skill sets the same variables, and none of the exported ones.
-/
def statementMeets (file : Text) (env view : EnvLookup) : EnvStatement → Bool
  | .include' spec =>
    decide (host.includes spec env = host.includes spec view) &&
      (host.includes spec env).1.all fun change => !keys change.1
  | .assign key value =>
    if keys key then
      (expandEnvValue host file env host.depth value).isOk
    else
      decide (expandEnvValue host file env host.depth value =
        expandEnvValue host file view host.depth value)
  | _ => true

/-- Every line meets the condition when its turn comes. -/
def linesMeet
    (file : Text) (before : EnvLookup) : LineState → List Text → Bool
  | _, [] => true
  | state, line :: rest =>
    (state.error.isSome ||
      statementMeets host keys file state.env.lookup
        (inheritedView keys before state.env.lookup)
        (readEnvLine state.inComment line).2) &&
    linesMeet file before (loadLine host file state line) rest

def fileMeets
    (before : EnvLookup) (env : Environment) (file : EnvFile) : Bool :=
  linesMeet host keys file.path before
    { env := env, inComment := false, error := none } file.lines

/-- Every file that `load_files` loads meets the condition. -/
def filesMeet (before : EnvLookup) : FilesState → List EnvFile → Bool
  | _, [] => true
  | state, file :: rest =>
    (state.error.isSome || file.path.isEmpty ||
        state.seen.contains file.identity || !file.isFile ||
        fileMeets host keys before state.env file) &&
      filesMeet before (loadNextFile host state file) rest

/-- No value is kept under an exported key, or under the marker. -/
def aliasesMeet (before : EnvLookup) (skillPrefix : Text) :
    Environment × Entries Text Text → List Text → Bool
  | _, [] => true
  | state, key :: rest =>
    (isUnchanged before state.1.lookup key ||
      (keptAlias? before skillPrefix state.2 key).all fun kept =>
        !keys kept.1 && decide (kept.1 ≠ inheritedEnvKeys)) &&
    aliasesMeet before skillPrefix
      (prefixKey before skillPrefix state key) rest

/-- The file and the aliases of one layer meet the condition. -/
def layerMeets (state : LayersState) (layer : SkillLayer) : Bool :=
  match captureInheritedEnv host state.env.lookup with
  | .error _ => true
  | .ok saved =>
    let after := loadEnvFile host layer.file state.env
    let restored := restoreInheritedEnv saved after.1
    fileMeets host keys state.env.lookup state.env layer.file &&
      (after.2.isSome ||
        aliasesMeet keys state.env.lookup (layerPrefix layer)
          (restored, state.keyPrefix) (sortedKeys restored))

def layersMeet : LayersState → List SkillLayer → Bool
  | _, [] => true
  | state, layer :: rest =>
    (state.error.isSome ||
        state.seen.contains layer.file.identity ||
        !layer.file.isFile || layerMeets host keys state layer) &&
      layersMeet (loadNextLayer host state layer) rest

end Conditions

variable {host : EnvHost} {keys : Text → Bool}

variable {line : Text}

/-- A line that leaves something to read does not leave a comment open. -/
theorem stripComments_closed {fuel : Nat} {inComment : Bool}
    (nonempty : (stripComments fuel inComment line).2 ≠ []) :
    (stripComments fuel inComment line).1 = false := by
  induction fuel generalizing inComment line with
  | zero => exact absurd rfl nonempty
  | succ fuel ih =>
    cases inComment with
    | true =>
      simp only [stripComments] at nonempty ⊢
      split
      · rename_i rest found
        rw [found] at nonempty
        exact ih nonempty
      · rename_i open'
        rw [open'] at nonempty
        exact absurd rfl nonempty
    | false =>
      simp only [stripComments] at nonempty ⊢
      split
      · rename_i opens
        rw [if_pos opens] at nonempty
        exact ih nonempty
      · split <;> rfl

theorem readEnvLine_closed {inComment : Bool}
    (assigns : assignsTo keys (readEnvLine inComment line).2 = true) :
    (readEnvLine inComment line).1 = false := by
  unfold readEnvLine at assigns ⊢
  cases included : (includeDirective line).filter isTrue with
  | some spec =>
    rw [included] at assigns
    contradiction
  | none =>
    rw [included] at assigns
    refine stripComments_closed fun empty => ?_
    have blank :
        envStatement (stripEnvComments inComment line).2 = .blank := by
      unfold stripEnvComments
      rw [empty]
      rfl
    simp only [blank, assignsTo] at assigns
    contradiction

theorem readEnvLine_commentEnd :
    readEnvLine true "*/".toList = (false, .blank) :=
  rfl

theorem inheritedView_self (keys : Text → Bool) (before : EnvLookup) :
    inheritedView keys before before = before := by
  funext key
  unfold inheritedView
  split <;> rfl

variable {before : EnvLookup} {env : Environment} {key : Text}

theorem inheritedView_store_inherited {value : Text}
    (inherited : keys key = true) :
    inheritedView keys before (env.store key value).lookup =
      inheritedView keys before env.lookup := by
  funext other
  unfold inheritedView
  by_cases same : key = other
  · subst same
    rw [if_pos inherited, if_pos inherited]
  · rw [Entries.lookup_store_of_ne _ same]

variable {other : Environment}

theorem inheritedView_store {value : Text} (own : keys key = false)
    (view : other.lookup = inheritedView keys before env.lookup) :
    (other.store key value).lookup =
      inheritedView keys before (env.store key value).lookup := by
  funext name
  unfold inheritedView
  by_cases same : key = name
  · subst same
    simp [own]
  · rw [Entries.lookup_store_of_ne _ same,
      Entries.lookup_store_of_ne _ same, view]
    rfl

theorem inheritedView_setVariables {changes : List (Text × Text)}
    (own : changes.all (fun change => !keys change.1) = true)
    (view : other.lookup = inheritedView keys before env.lookup) :
    (setVariables other changes).lookup =
      inheritedView keys before (setVariables env changes).lookup := by
  induction changes generalizing env other with
  | nil => exact view
  | cons change rest ih =>
    simp only [List.all_cons, Bool.and_eq_true, Bool.not_eq_true'] at own
    exact ih own.2 (inheritedView_store own.1 view)

variable {file : Text}

theorem runStatement_view {statement : EnvStatement}
    (meets :
      statementMeets host keys file env.lookup
        (inheritedView keys before env.lookup) statement = true)
    (own : assignsTo keys statement = false)
    (view : other.lookup = inheritedView keys before env.lookup) :
    (runStatement host file other statement).1.lookup =
        inheritedView keys before
          (runStatement host file env statement).1.lookup ∧
      (runStatement host file other statement).2 =
        (runStatement host file env statement).2 := by
  cases statement with
  | include' spec =>
    simp only [statementMeets, Bool.and_eq_true, decide_eq_true_eq] at meets
    simp only [runStatement, view, ← meets.1]
    exact ⟨inheritedView_setVariables meets.2 view, trivial⟩
  | blank => exact ⟨view, rfl⟩
  | invalidLine line => exact ⟨view, rfl⟩
  | invalidKey key => exact ⟨view, rfl⟩
  | assign key value =>
    simp only [assignsTo] at own
    simp only [statementMeets, own, Bool.false_eq_true, if_false,
      decide_eq_true_eq] at meets
    simp only [runStatement, view, ← meets]
    cases expandEnvValue host file env.lookup host.depth value with
    | ok expanded => exact ⟨inheritedView_store own view, rfl⟩
    | error error => exact ⟨view, rfl⟩

structure LinesAgree
    (keys : Text → Bool) (before : EnvLookup)
    (state other : LineState) : Prop where
  env : other.env.lookup = inheritedView keys before state.env.lookup
  error : other.error = state.error
  inComment : state.error = none → other.inComment = state.inComment

variable {state : LineState}

theorem foldl_loadLine_of_error (died : state.error.isSome = true)
    (lines : List Text) :
    lines.foldl (loadLine host file) state = state := by
  induction lines with
  | nil => rfl
  | cons line rest ih =>
    rw [List.foldl_cons, loadLine, if_pos died, ih]

theorem loadLine_of_alive (alive : state.error = none) (line : Text) :
    loadLine host file state line =
      { env :=
          (runStatement host file state.env
            (readEnvLine state.inComment line).2).1
        inComment := (readEnvLine state.inComment line).1
        error :=
          (runStatement host file state.env
            (readEnvLine state.inComment line).2).2 } := by
  unfold loadLine
  rw [alive]
  rfl

theorem linesMeet_cons {rest : List Text} (alive : state.error = none) :
    linesMeet host keys file before state (line :: rest) = true ↔
      statementMeets host keys file state.env.lookup
          (inheritedView keys before state.env.lookup)
          (readEnvLine state.inComment line).2 = true ∧
        linesMeet host keys file before
          (loadLine host file state line) rest = true := by
  rw [linesMeet, alive, Bool.and_eq_true]
  rfl

theorem linesAgree_assignment {other : LineState}
    (alive : state.error = none) (agree : LinesAgree keys before state other)
    (meets :
      statementMeets host keys file state.env.lookup
        (inheritedView keys before state.env.lookup)
        (readEnvLine state.inComment line).2 = true)
    (assigns :
      assignsTo keys (readEnvLine state.inComment line).2 = true) :
    LinesAgree keys before
      (loadLine host file state line)
      ((if state.inComment then ["*/".toList] else []).foldl
        (loadLine host file) other) := by
  have otherAlive : other.error = none := by rw [agree.error, alive]
  have closed := readEnvLine_closed assigns
  rw [loadLine_of_alive alive, closed]
  generalize (readEnvLine state.inComment line).2 = statement at *
  -- the other load reads at most the end of a comment
  have after :
      (if state.inComment then ["*/".toList] else []).foldl
          (loadLine host file) other =
        { other with inComment := false } := by
    cases open' : state.inComment with
    | true =>
      have otherOpen : other.inComment = true := by
        rw [agree.inComment alive, open']
      rw [if_pos rfl, List.foldl_cons, List.foldl_nil,
        loadLine_of_alive otherAlive, otherOpen, readEnvLine_commentEnd]
      simp only [runStatement, otherAlive]
    | false =>
      have otherClosed : other.inComment = false := by
        rw [agree.inComment alive, open']
      rw [if_neg Bool.false_ne_true, ← otherClosed]
      rfl
  rw [after]
  cases statement with
  | assign key value =>
    simp only [assignsTo] at assigns
    simp only [statementMeets, assigns, if_true] at meets
    simp only [runStatement]
    cases expanded :
        expandEnvValue host file state.env.lookup host.depth value with
    | error message =>
      rw [expanded] at meets
      contradiction
    | ok text =>
      exact {
        env := agree.env.trans
          (inheritedView_store_inherited assigns).symm
        error := otherAlive
        inComment := fun _ => rfl }
  | _ => contradiction

theorem linesAgree_line {other : LineState} (alive : state.error = none)
    (agree : LinesAgree keys before state other)
    (meets :
      statementMeets host keys file state.env.lookup
        (inheritedView keys before state.env.lookup)
        (readEnvLine state.inComment line).2 = true)
    (own :
      assignsTo keys (readEnvLine state.inComment line).2 = false) :
    LinesAgree keys before
      (loadLine host file state line) (loadLine host file other line) := by
  have otherAlive : other.error = none := by rw [agree.error, alive]
  have view := runStatement_view meets own agree.env
  rw [loadLine_of_alive alive, loadLine_of_alive otherAlive,
    agree.inComment alive]
  exact { env := view.1, error := view.2, inComment := fun _ => rfl }

theorem linesAgree_foldl {other : LineState} {lines : List Text}
    (meets : linesMeet host keys file before state lines = true)
    (agree : LinesAgree keys before state other) :
    LinesAgree keys before
      (lines.foldl (loadLine host file) state)
      ((withoutAssignments keys state.inComment lines).foldl
        (loadLine host file) other) := by
  induction lines generalizing state other with
  | nil => exact agree
  | cons line rest ih =>
    cases alive : state.error with
    | some message =>
      have died : state.error.isSome = true := by rw [alive]; rfl
      have otherDied : other.error.isSome = true := by
        rw [agree.error, died]
      rw [foldl_loadLine_of_error died, foldl_loadLine_of_error otherDied]
      exact agree
    | none =>
      obtain ⟨lineMeets, restMeets⟩ := (linesMeet_cons alive).mp meets
      have comment :
          (loadLine host file state line).inComment =
            (readEnvLine state.inComment line).1 := by
        rw [loadLine_of_alive alive]
      rw [List.foldl_cons, withoutAssignments]
      split
      · next assigns =>
          rw [List.foldl_append, ← comment]
          exact ih restMeets
            (linesAgree_assignment alive agree lineMeets assigns)
      · next own =>
          rw [List.foldl_cons, ← comment]
          exact ih restMeets
            (linesAgree_line alive agree lineMeets
              (Bool.not_eq_true _ ▸ own))

theorem loadEnvFile_without {file : EnvFile}
    (meets : fileMeets host keys before env file = true)
    (view : other.lookup = inheritedView keys before env.lookup) :
    (loadEnvFile host (file.without keys) other).1.lookup =
        inheritedView keys before (loadEnvFile host file env).1.lookup ∧
      (loadEnvFile host (file.without keys) other).2 =
        (loadEnvFile host file env).2 := by
  have start :
      LinesAgree keys before
        { env := env, inComment := false, error := none }
        { env := other, inComment := false, error := none } :=
    { env := view, error := rfl, inComment := fun _ => rfl }
  have agree := linesAgree_foldl meets start
  refine ⟨agree.env, ?_⟩
  unfold loadEnvFile
  dsimp only [EnvFile.without] at agree ⊢
  rw [agree.error]
  cases died :
      (file.lines.foldl (loadLine host file.path)
        { env := env, inComment := false, error := none }).error with
  | some message => rfl
  | none => rw [agree.inComment died]

structure FilesAgree
    (keys : Text → Bool) (before : EnvLookup)
    (state other : FilesState) : Prop where
  env : other.env.lookup = inheritedView keys before state.env.lookup
  seen : other.seen = state.seen
  loaded : other.loaded = state.loaded
  error : other.error = state.error

theorem filesAgree_next {state other : FilesState} {file : EnvFile}
    (meets :
      (state.error.isSome || file.path.isEmpty ||
          state.seen.contains file.identity || !file.isFile ||
          fileMeets host keys before state.env file) = true)
    (agree : FilesAgree keys before state other) :
    FilesAgree keys before
      (loadNextFile host state file)
      (loadNextFile host other (file.without keys)) := by
  unfold loadNextFile
  rw [agree.error, agree.seen]
  change FilesAgree keys before _
    (if (state.error.isSome || file.path.isEmpty ||
        state.seen.contains file.identity) = true then other
    else if file.isFile = true then _ else _)
  by_cases passed :
      (state.error.isSome || file.path.isEmpty ||
        state.seen.contains file.identity) = true
  · rw [if_pos passed, if_pos passed]
    exact agree
  · rw [if_neg passed, if_neg passed]
    by_cases isFile : file.isFile = true
    · rw [if_pos isFile, if_pos isFile]
      have fileMeet : fileMeets host keys before state.env file = true := by
        rw [Bool.not_eq_true] at passed
        rwa [passed, isFile] at meets
      have after := loadEnvFile_without fileMeet agree.env
      refine {
        env := after.1
        seen := rfl
        loaded := ?_
        error := after.2 }
      dsimp only
      rw [after.2, agree.loaded]
      rfl
    · rw [if_neg isFile, if_neg isFile]
      exact {
        env := agree.env
        seen := rfl
        loaded := agree.loaded
        error := rfl }

theorem filesAgree_foldl {state other : FilesState} {files : List EnvFile}
    (meets : filesMeet host keys before state files = true)
    (agree : FilesAgree keys before state other) :
    FilesAgree keys before
      (files.foldl (loadNextFile host) state)
      ((files.map (EnvFile.without keys)).foldl
        (loadNextFile host) other) := by
  induction files generalizing state other with
  | nil => exact agree
  | cons file rest ih =>
    rw [filesMeet, Bool.and_eq_true] at meets
    exact ih meets.2 (filesAgree_next meets.1 agree)

variable {saved : Entries Text (Option Text)}

theorem lookup_captureInheritedEnv {env : EnvLookup}
    (captured : captureInheritedEnv host env = .ok saved)
    (isIn : key ∈ saved.map Prod.fst) :
    (saved.lookup key).join = env key := by
  unfold captureInheritedEnv at captured
  cases listed : listedKeys host env with
  | error message =>
    rw [listed] at captured
    contradiction
  | ok names =>
    rw [listed] at captured
    obtain rfl := Except.ok.inj captured
    have value : ∀ entry ∈
        (inheritedEnvKeys, env inheritedEnvKeys) ::
          (names.filter fun key => (env key).isSome).map
            (fun key => (key, env key)),
        entry.2 = env entry.1 := by
      intro entry entryIn
      rcases List.mem_cons.mp entryIn with rfl | entryIn
      · rfl
      · obtain ⟨name, _, rfl⟩ := List.mem_map.mp entryIn
        rfl
    cases found : Entries.lookup _ key with
    | none =>
      exact absurd isIn ((Entries.lookup_eq_none_iff _ _).mp found)
    | some stored =>
      exact value _ (Entries.mem_of_lookup found)

theorem lookup_restoreInheritedEnv
    (captured : captureInheritedEnv host before = .ok saved)
    (env : Environment) (key : Text) :
    (restoreInheritedEnv saved env).lookup key =
      if key ∈ saved.map Prod.fst then before key else env.lookup key := by
  unfold restoreInheritedEnv
  rw [Entries.lookup_foldl_assign]
  split
  · next isIn => exact lookup_captureInheritedEnv captured isIn
  · rfl

theorem isInherited_iff {env : EnvLookup} :
    isInherited host env key = true ↔
      key ≠ inheritedEnvKeys ∧
        ∃ names, listedKeys host env = .ok names ∧
          key ∈ names ∧ (env key).isSome = true := by
  unfold isInherited captureInheritedEnv
  cases listed : listedKeys host env with
  | error message => simp [Except.map]
  | ok names =>
    simp only [Except.map, List.map_cons, List.map_map, Bool.and_eq_true,
      decide_eq_true_eq, List.contains_iff_mem, List.mem_cons,
      List.mem_map, List.mem_filter, Function.comp_apply,
      exists_eq_right, Except.ok.injEq, exists_eq_left']
    refine and_congr_right fun other => ?_
    simp [other]

/-- The marker and the exported keys as they were at first. -/
structure InheritedKept
    (keys : Text → Bool) (before env : EnvLookup) : Prop where
  marker : env inheritedEnvKeys = before inheritedEnvKeys
  keys : ∀ key, keys key = true → env key = before key

theorem mem_saved_of_isInherited {env : EnvLookup}
    (captured : captureInheritedEnv host env = .ok saved)
    (kept : InheritedKept (isInherited host before) before env)
    (inherited : isInherited host before key = true) :
    key ∈ saved.map Prod.fst := by
  obtain ⟨_, names, listed, named, present⟩ :=
    isInherited_iff.mp inherited
  have sameNames : listedKeys host env = .ok names := by
    unfold listedKeys at listed ⊢
    rw [kept.marker]
    exact listed
  unfold captureInheritedEnv at captured
  rw [sameNames] at captured
  obtain rfl := Except.ok.inj captured
  rw [← kept.keys key inherited] at present
  refine List.mem_map.mpr ⟨(key, env key), ?_, rfl⟩
  exact List.mem_cons_of_mem _ (List.mem_map.mpr
    ⟨key, List.mem_filter.mpr ⟨named, present⟩, rfl⟩)

theorem marker_mem_saved {env : EnvLookup}
    (captured : captureInheritedEnv host env = .ok saved) :
    inheritedEnvKeys ∈ saved.map Prod.fst := by
  unfold captureInheritedEnv at captured
  cases listed : listedKeys host env with
  | error message =>
    rw [listed] at captured
    contradiction
  | ok names =>
    rw [listed] at captured
    obtain rfl := Except.ok.inj captured
    exact List.mem_cons_self

theorem restoreInheritedEnv_view
    (captured : captureInheritedEnv host before = .ok saved)
    (isSaved : ∀ key, keys key = true → key ∈ saved.map Prod.fst)
    (view : other.lookup = inheritedView keys before env.lookup) :
    (restoreInheritedEnv saved other).lookup =
      (restoreInheritedEnv saved env).lookup := by
  funext key
  rw [lookup_restoreInheritedEnv captured,
    lookup_restoreInheritedEnv captured]
  split
  · rfl
  · next fresh =>
      rw [view, inheritedView, if_neg]
      exact fun inherited => fresh (isSaved key inherited)

theorem inheritedKept_restore {now : EnvLookup}
    (captured : captureInheritedEnv host now = .ok saved)
    (kept : InheritedKept (isInherited host before) before now)
    (env : Environment) :
    InheritedKept (isInherited host before) before
      (restoreInheritedEnv saved env).lookup where
  marker := by
    rw [lookup_restoreInheritedEnv captured,
      if_pos (marker_mem_saved captured), kept.marker]
  keys key inherited := by
    rw [lookup_restoreInheritedEnv captured,
      if_pos (mem_saved_of_isInherited captured kept inherited),
      kept.keys key inherited]

theorem lookup_store_congr (same : other.lookup = env.lookup)
    (key value : Text) :
    (other.store key value).lookup = (env.store key value).lookup := by
  funext name
  by_cases stored : key = name
  · subst stored
    rw [Entries.lookup_store_self, Entries.lookup_store_self]
  · rw [Entries.lookup_store_of_ne _ stored,
      Entries.lookup_store_of_ne _ stored, same]

theorem prefixKey_congr (before : EnvLookup) (skillPrefix : Text)
    {state other : Environment × Entries Text Text}
    (env : other.1.lookup = state.1.lookup) (keyPrefix : other.2 = state.2)
    (key : Text) :
    (prefixKey before skillPrefix other key).1.lookup =
        (prefixKey before skillPrefix state key).1.lookup ∧
      (prefixKey before skillPrefix other key).2 =
        (prefixKey before skillPrefix state key).2 := by
  unfold prefixKey
  rw [env, keyPrefix]
  split
  · exact ⟨env, keyPrefix⟩
  · refine ⟨?_, rfl⟩
    cases keptAlias? before skillPrefix state.2 key with
    | none => exact env
    | some kept => exact lookup_store_congr env kept.1 kept.2

theorem foldl_prefixKey_congr (before : EnvLookup) (skillPrefix : Text)
    {state other : Environment × Entries Text Text}
    (env : other.1.lookup = state.1.lookup) (keyPrefix : other.2 = state.2)
    (names : List Text) :
    (names.foldl (prefixKey before skillPrefix) other).1.lookup =
        (names.foldl (prefixKey before skillPrefix) state).1.lookup ∧
      (names.foldl (prefixKey before skillPrefix) other).2 =
        (names.foldl (prefixKey before skillPrefix) state).2 := by
  induction names generalizing state other with
  | nil => exact ⟨env, keyPrefix⟩
  | cons name rest ih =>
    have next := prefixKey_congr before skillPrefix env keyPrefix name
    exact ih next.1 next.2

theorem sortedKeys_congr (same : other.lookup = env.lookup) :
    sortedKeys other = sortedKeys env := by
  have names (key : Text) :
      key ∈ other.map Prod.fst ↔ key ∈ env.map Prod.fst := by
    rw [← not_iff_not, ← Entries.lookup_eq_none_iff,
      ← Entries.lookup_eq_none_iff, same]
  have perm :
      (other.map Prod.fst).dedup.Perm (env.map Prod.fst).dedup :=
    (List.perm_ext_iff_of_nodup (List.nodup_dedup _)
      (List.nodup_dedup _)).mpr fun key => by
        rw [List.mem_dedup, List.mem_dedup, names]
  exact List.Perm.eq_of_pairwise' (List.pairwise_insertionSort _ _)
    (List.pairwise_insertionSort _ _)
    (((List.perm_insertionSort _ _).trans perm).trans
      (List.perm_insertionSort _ _).symm)

/-- The exported keys keep their values when other values are kept. -/
theorem inheritedKept_foldl_prefixKey {now : EnvLookup} {skillPrefix : Text}
    {state : Environment × Entries Text Text} {names : List Text}
    (meets : aliasesMeet keys now skillPrefix state names = true)
    (kept : InheritedKept keys before state.1.lookup) :
    InheritedKept keys before
      (names.foldl (prefixKey now skillPrefix) state).1.lookup := by
  induction names generalizing state with
  | nil => exact kept
  | cons name rest ih =>
    rw [aliasesMeet, Bool.and_eq_true] at meets
    refine ih meets.2 ?_
    have nameMeets := meets.1
    unfold prefixKey
    split
    · exact kept
    · next changed =>
        rw [Bool.not_eq_true] at changed
        rw [changed, Bool.false_or] at nameMeets
        cases found : keptAlias? now skillPrefix state.2 name with
        | none => exact kept
        | some entry =>
          simp only [found, Option.all_some, Bool.and_eq_true,
            Bool.not_eq_true', decide_eq_true_eq] at nameMeets
          obtain ⟨own, notMarker⟩ := nameMeets
          refine { marker := ?_, keys := fun key inherited => ?_ }
          · exact (Entries.lookup_store_of_ne _ notMarker _).trans
              kept.marker
          · have different : entry.1 ≠ key := by
              rintro rfl
              rw [own] at inherited
              contradiction
            exact (Entries.lookup_store_of_ne _ different _).trans
              (kept.keys key inherited)

structure LayersAgree (state other : LayersState) : Prop where
  env : other.env.lookup = state.env.lookup
  keyPrefix : other.keyPrefix = state.keyPrefix
  seen : other.seen = state.seen
  loaded : other.loaded = state.loaded
  error : other.error = state.error

theorem restored_without {now : Environment} {file : EnvFile}
    (captured : captureInheritedEnv host now.lookup = .ok saved)
    (isSaved : ∀ key, keys key = true → key ∈ saved.map Prod.fst)
    (meets : fileMeets host keys now.lookup now file = true)
    (same : other.lookup = now.lookup) :
    (restoreInheritedEnv saved
          (loadEnvFile host (file.without keys) other).1).lookup =
        (restoreInheritedEnv saved (loadEnvFile host file now).1).lookup ∧
      (loadEnvFile host (file.without keys) other).2 =
        (loadEnvFile host file now).2 := by
  have after :=
    loadEnvFile_without meets
      (same.trans (inheritedView_self keys now.lookup).symm)
  exact ⟨restoreInheritedEnv_view captured isSaved after.1, after.2⟩

theorem layersAgree_next {state other : LayersState} {layer : SkillLayer}
    (meets :
      (state.error.isSome || state.seen.contains layer.file.identity ||
        !layer.file.isFile ||
        layerMeets host (isInherited host before) state layer) = true)
    (kept :
      InheritedKept (isInherited host before) before state.env.lookup)
    (agree : LayersAgree state other) :
    LayersAgree (loadNextLayer host state layer)
        (loadNextLayer host other
          (layer.without (isInherited host before))) ∧
      InheritedKept (isInherited host before) before
        (loadNextLayer host state layer).env.lookup := by
  unfold loadNextLayer
  rw [agree.error, agree.seen, agree.env]
  change LayersAgree _
    (if (state.error.isSome ||
        state.seen.contains layer.file.identity) = true then other
    else if layer.file.isFile = true then _ else _) ∧ _
  by_cases passed :
      (state.error.isSome ||
        state.seen.contains layer.file.identity) = true
  · rw [if_pos passed, if_pos passed]
    exact ⟨agree, kept⟩
  rw [if_neg passed, if_neg passed]
  by_cases isFile : layer.file.isFile = true
  · rw [if_pos isFile, if_pos isFile]
    cases captured : captureInheritedEnv host state.env.lookup with
    | error message =>
      exact ⟨{ agree with seen := rfl, error := rfl }, kept⟩
    | ok saved =>
      have layerMeet :
          layerMeets host (isInherited host before) state layer = true := by
        rw [Bool.not_eq_true] at passed
        rwa [passed, isFile] at meets
      unfold layerMeets at layerMeet
      rw [captured] at layerMeet
      simp only [Bool.and_eq_true, Bool.or_eq_true] at layerMeet
      obtain ⟨fileMeet, aliasMeet⟩ := layerMeet
      have restored :=
        restored_without captured
          (fun key => mem_saved_of_isInherited captured kept)
          fileMeet agree.env
      have keptBack :=
        inheritedKept_restore captured kept
          (loadEnvFile host layer.file state.env).1
      dsimp only [SkillLayer.without]
      rw [restored.2]
      by_cases died :
          (loadEnvFile host layer.file state.env).2.isSome = true
      · rw [if_pos died, if_pos died]
        exact ⟨{
          env := restored.1
          keyPrefix := agree.keyPrefix
          seen := rfl
          loaded := agree.loaded
          error := rfl }, keptBack⟩
      · rw [if_neg died, if_neg died, sortedKeys_congr restored.1]
        have prefixed :=
          @foldl_prefixKey_congr state.env.lookup (layerPrefix layer)
            (_, state.keyPrefix) (_, other.keyPrefix)
            restored.1 agree.keyPrefix
            (sortedKeys (restoreInheritedEnv saved
              (loadEnvFile host layer.file state.env).1))
        exact ⟨{
          env := prefixed.1
          keyPrefix := prefixed.2
          seen := rfl
          loaded := by rw [agree.loaded]; rfl
          error := rfl },
          inheritedKept_foldl_prefixKey
            (aliasMeet.resolve_left died) keptBack⟩
  · rw [if_neg isFile, if_neg isFile]
    exact ⟨{ agree with seen := rfl, error := rfl }, kept⟩

theorem layersAgree_foldl {state other : LayersState}
    {layers : List SkillLayer}
    (meets :
      layersMeet host (isInherited host before) state layers = true)
    (kept :
      InheritedKept (isInherited host before) before state.env.lookup)
    (agree : LayersAgree state other) :
    LayersAgree
        (layers.foldl (loadNextLayer host) state)
        ((layers.map (SkillLayer.without (isInherited host before))).foldl
          (loadNextLayer host) other) ∧
      InheritedKept (isInherited host before) before
        (layers.foldl (loadNextLayer host) state).env.lookup := by
  induction layers generalizing state other with
  | nil => exact ⟨agree, kept⟩
  | cons layer rest ih =>
    rw [layersMeet, Bool.and_eq_true] at meets
    have next := layersAgree_next meets.1 kept agree
    exact ih meets.2 next.2 next.1

/-- `load_files` of the files, and of the files without the assignments. -/
theorem loadFiles_without {files : List EnvFile}
    (meets :
      filesMeet host (isInherited host env.lookup) env.lookup
        { env := env, seen := [], loaded := [], error := none }
        files = true) :
    (loadFiles host env files).env.lookup =
        (loadFiles host env
          (files.map
            (EnvFile.without (isInherited host env.lookup)))).env.lookup ∧
      (loadFiles host env files).error =
        (loadFiles host env
          (files.map
            (EnvFile.without (isInherited host env.lookup)))).error ∧
      InheritedKept (isInherited host env.lookup) env.lookup
        (loadFiles host env files).env.lookup := by
  unfold loadFiles
  have start : InheritedKept (isInherited host env.lookup) env.lookup
      env.lookup :=
    { marker := rfl, keys := fun _ _ => rfl }
  cases captured : captureInheritedEnv host env.lookup with
  | error message => exact ⟨rfl, rfl, start⟩
  | ok saved =>
    have same :
        FilesAgree (isInherited host env.lookup) env.lookup
          { env := env, seen := [], loaded := [], error := none }
          { env := env, seen := [], loaded := [], error := none } :=
      { env := (inheritedView_self _ env.lookup).symm
        seen := rfl
        loaded := rfl
        error := rfl }
    have agree := filesAgree_foldl meets same
    refine ⟨?_, agree.error.symm, inheritedKept_restore captured start _⟩
    exact (restoreInheritedEnv_view captured
      (fun key => mem_saved_of_isInherited captured start)
      agree.env).symm

/-- `_load_skill_layer_specs` of the layers, and of the bare layers. -/
theorem loadSkillLayerSpecs_without {layers : List SkillLayer}
    (meets :
      layersMeet host (isInherited host env.lookup)
        { env := env, keyPrefix := [], seen := [], loaded := [],
          error := none } layers = true) :
    (loadSkillLayerSpecs host env layers).env.lookup =
        (loadSkillLayerSpecs host env
          (layers.map
            (SkillLayer.without (isInherited host env.lookup)))).env.lookup ∧
      (loadSkillLayerSpecs host env layers).error =
        (loadSkillLayerSpecs host env
          (layers.map
            (SkillLayer.without (isInherited host env.lookup)))).error ∧
      InheritedKept (isInherited host env.lookup) env.lookup
        (loadSkillLayerSpecs host env layers).env.lookup := by
  have same :
      LayersAgree
        { env := env, keyPrefix := [], seen := [], loaded := [],
          error := none }
        { env := env, keyPrefix := [], seen := [], loaded := [],
          error := none } :=
    { env := rfl, keyPrefix := rfl, seen := rfl, loaded := rfl,
      error := rfl }
  have loads :=
    layersAgree_foldl meets { marker := rfl, keys := fun _ _ => rfl } same
  exact ⟨loads.1.env.symm, loads.1.error.symm, loads.2⟩

/-- Every file that `load_files` loads meets the condition. -/
def FilesKeepInherited
    (host : EnvHost) (env : Environment) (files : List EnvFile) : Prop :=
  filesMeet host (isInherited host env.lookup) env.lookup
    { env := env, seen := [], loaded := [], error := none } files = true

/-- Every layer that `_load_skill_layer_specs` loads meets the condition. -/
def LayersKeepInherited
    (host : EnvHost) (env : Environment) (layers : List SkillLayer) : Prop :=
  layersMeet host (isInherited host env.lookup)
    { env := env, keyPrefix := [], seen := [], loaded := [],
      error := none } layers = true

instance (host : EnvHost) (env : Environment) (files : List EnvFile) :
    Decidable (FilesKeepInherited host env files) :=
  inferInstanceAs (Decidable (_ = true))

instance (host : EnvHost) (env : Environment) (layers : List SkillLayer) :
    Decidable (LayersKeepInherited host env layers) :=
  inferInstanceAs (Decidable (_ = true))

/--
Exported variables win over the files, and over the layers, where no value is
computed from what a file assigned to one of them.
-/
theorem exported_variables_win (host : EnvHost) (env : Environment) :
    (∀ files, FilesKeepInherited host env files →
      (loadFiles host env files).env.lookup =
          (loadFiles host env
            (files.map
              (EnvFile.without (isInherited host env.lookup)))).env.lookup ∧
        (loadFiles host env files).error =
          (loadFiles host env
            (files.map
              (EnvFile.without (isInherited host env.lookup)))).error ∧
        InheritedKept (isInherited host env.lookup) env.lookup
          (loadFiles host env files).env.lookup) ∧
    ∀ layers, LayersKeepInherited host env layers →
      (loadSkillLayerSpecs host env layers).env.lookup =
          (loadSkillLayerSpecs host env
            (layers.map
              (SkillLayer.without
                (isInherited host env.lookup)))).env.lookup ∧
        (loadSkillLayerSpecs host env layers).error =
          (loadSkillLayerSpecs host env
            (layers.map
              (SkillLayer.without
                (isInherited host env.lookup)))).error ∧
        InheritedKept (isInherited host env.lookup) env.lookup
          (loadSkillLayerSpecs host env layers).env.lookup :=
  ⟨fun _ meets => loadFiles_without meets,
    fun _ meets => loadSkillLayerSpecs_without meets⟩

def markerOf (key : String) : Text :=
  "[\"".toList ++ key.toList ++ "\"]".toList

/-- A host without functions and includes, and a marker that lists a key. -/
def plainHost (exported : String) : EnvHost where
  depth := 1
  call _ _ := none
  includes _ _ := ([], none)
  decodeKeys raw :=
    if raw = markerOf exported then some [some exported.toList] else none

def callerEnv (exported : String) : Environment :=
  [(inheritedEnvKeys, markerOf exported), (exported.toList, "caller".toList)]

def plainFile (name : String) (lines : List String) : EnvFile where
  path := name.toList
  identity := name.toList
  isFile := true
  lines := lines.map String.toList

/-- A skill layer with an env file of the given lines. -/
def plainLayer (skillPrefix : String) (lines : List String) : SkillLayer where
  skillPrefix := skillPrefix.toList
  file := plainFile skillPrefix lines

/-- A file and layers that assign to `A` after they have read it. -/
theorem exported_variables_win_sample :
    (loadFiles (plainHost "A") (callerEnv "A")
        [plainFile "f" ["B=$A-x", "A=file"]]).env.lookup =
      (loadFiles (plainHost "A") (callerEnv "A")
        ([plainFile "f" ["B=$A-x", "A=file"]].map
          (EnvFile.without
            (isInherited (plainHost "A")
              (callerEnv "A").lookup)))).env.lookup ∧
    (loadSkillLayerSpecs (plainHost "A") (callerEnv "A")
        [plainLayer "S" ["C=$A", "A=skill"],
          plainLayer "T" ["C=two", "B=$A"]]).env.lookup =
      (loadSkillLayerSpecs (plainHost "A") (callerEnv "A")
        ([plainLayer "S" ["C=$A", "A=skill"],
          plainLayer "T" ["C=two", "B=$A"]].map
          (SkillLayer.without
            (isInherited (plainHost "A")
              (callerEnv "A").lookup)))).env.lookup :=
  ⟨((exported_variables_win (plainHost "A") (callerEnv "A")).1 _
      (by decide)).1,
    ((exported_variables_win (plainHost "A") (callerEnv "A")).2 _
      (by decide)).1⟩

/--
A value that is expanded after the file's own assignment to `A` comes out
differently, and the name that keeps a replaced value can be an exported one.
-/
theorem exported_variable_loses_to_file :
    isInherited (plainHost "A") (callerEnv "A").lookup "A".toList = true ∧
    (loadFiles (plainHost "A") (callerEnv "A")
        [plainFile "f" ["A=file", "B=$A"]]).env.lookup "B".toList =
      some "file".toList ∧
    (loadFiles (plainHost "A") (callerEnv "A")
        ([plainFile "f" ["A=file", "B=$A"]].map
          (EnvFile.without
            (isInherited (plainHost "A")
              (callerEnv "A").lookup)))).env.lookup "B".toList =
      some "caller".toList ∧
    isInherited (plainHost "S_A") (callerEnv "S_A").lookup "S_A".toList =
      true ∧
    (callerEnv "S_A").lookup "S_A".toList = some "caller".toList ∧
    (loadSkillLayerSpecs (plainHost "S_A") (callerEnv "S_A")
        [plainLayer "S" ["A=one"], plainLayer "T" ["A=two"]]).env.lookup
          "S_A".toList = some "one".toList := by
  decide

end DeveloperDashboard.Env
