import DeveloperDashboard.Commands.SkillHooks
import DeveloperDashboard.Library.CommutingJoin

namespace DeveloperDashboard.Commands

open Library Library.CommutingJoin Perl Skills

/-!
# The results of all hooks

`RESULT` is keyed by the names of the hooks, and a name that is taken gets its
directory before it.  That directory has the same name in every layer, so a
hook whose name two earlier ones have replaces the second of them; and
`dispatch` joins what the hooks wrote in the order of a hash.
-/

/-- The hooks of one layer: names in a directory that ends as the others. -/
structure LayerHooks (leaf : Text) where
  directory : Path
  names : List Text
  isLeaf : leafName directory = leaf
  plain : ∀ name ∈ names, '/' ∉ name

def LayerHooks.paths {leaf : Text} (layer : LayerHooks leaf) : List Path :=
  layer.names.map fun name => layer.directory ++ [name]

def executedHooks {leaf : Text} (layers : List (LayerHooks leaf)) :
    List Path :=
  layers.flatMap LayerHooks.paths

/-- What `RESULT` should hold of a hook. -/
def entryOf (run : ChildRun Text) : ResultEntry where
  stdout := run.stdout
  stderr := run.stderr
  exitCode := shiftedStatus run.ended.status

/-- A hook of the directory that all have, with a plain name. -/
structure IsHookIn (leaf : Text) (hook : Path) : Prop where
  isLeaf : leafName hook.dropLast = leaf
  plain : '/' ∉ leafName hook

variable {leaf : Text} {hook : Path}

theorem isHookIn_of_mem {layers : List (LayerHooks leaf)}
    (isIn : hook ∈ executedHooks layers) :
    IsHookIn leaf hook := by
  obtain ⟨layer, -, isHook⟩ := List.mem_flatMap.mp isIn
  obtain ⟨name, isName, rfl⟩ := List.mem_map.mp isHook
  refine ⟨?_, ?_⟩
  · rw [List.dropLast_concat]
    exact layer.isLeaf
  · rw [leafName, List.getLast?_concat]
    exact layer.plain name isName

/-- `%results` after one more hook. -/
def storeHook (outcome : Path → ChildRun Text)
    (results : Entries Text ResultEntry) (hook : Path) :
    Entries Text ResultEntry :=
  results.store (resultKey results hook) (entryOf (outcome hook))

theorem results_foldl (lastExit : Nat → Nat) (outcome : Path → ChildRun Text)
    (hooks : List Path) (state : HookState) :
    (hooks.foldl (recordHook lastExit outcome) state).results =
      hooks.foldl (storeHook outcome) state.results := by
  induction hooks generalizing state with
  | nil => rfl
  | cons hook rest ih =>
    rw [List.foldl_cons, List.foldl_cons, ih]
    rfl

def timesNamed (name : Text) (hooks : List Path) : Nat :=
  (hooks.map leafName).count name

theorem timesNamed_concat (name : Text) (hooks : List Path) (hook : Path) :
    timesNamed name (hooks ++ [hook]) =
      timesNamed name hooks + if leafName hook = name then 1 else 0 := by
  unfold timesNamed
  rw [List.map_append, List.count_append, List.map_singleton,
    List.count_singleton]
  simp only [beq_iff_eq]

/-- Which keys `%results` has after some hooks. -/
structure KeysAfter
    (leaf : Text) (hooks : List Path)
    (results : Entries Text ResultEntry) : Prop where
  distinct : (results.map Prod.fst).Nodup
  named :
    ∀ name, '/' ∉ name →
      ((results.lookup name).isSome ↔ 1 ≤ timesNamed name hooks)
  repeated :
    ∀ name, '/' ∉ name →
      ((results.lookup (leaf ++ '/' :: name)).isSome ↔
        2 ≤ timesNamed name hooks)

theorem repeatedKey_ne {name other : Text} (plain : '/' ∉ other) :
    leaf ++ '/' :: name ≠ other := by
  rintro rfl
  exact plain (List.mem_append_right _ List.mem_cons_self)

theorem repeatedKey_inj {name other : Text} :
    leaf ++ '/' :: name = leaf ++ '/' :: other ↔ name = other := by
  rw [List.append_cancel_left_eq, List.cons.injEq]
  exact and_iff_right rfl

variable {hooks : List Path} {results : Entries Text ResultEntry}

theorem KeysAfter.resultKey_eq (keys : KeysAfter leaf hooks results)
    (isHook : IsHookIn leaf hook) :
    resultKey results hook =
      if timesNamed (leafName hook) hooks = 0 then leafName hook
      else leaf ++ '/' :: leafName hook := by
  have named := keys.named (leafName hook) isHook.plain
  unfold resultKey
  rw [isHook.isLeaf]
  by_cases fresh : timesNamed (leafName hook) hooks = 0
  · rw [if_neg, if_pos fresh]
    rw [named]
    omega
  · rw [if_pos, if_neg fresh]
    rw [named]
    omega

/-- One more hook keeps the keys as they should be. -/
theorem KeysAfter.step (keys : KeysAfter leaf hooks results)
    (isHook : IsHookIn leaf hook) (outcome : Path → ChildRun Text) :
    KeysAfter leaf (hooks ++ [hook]) (storeHook outcome results hook) := by
  unfold storeHook
  refine ⟨Entries.nodup_store keys.distinct _ _, ?_, ?_⟩
  · intro name plain
    rw [timesNamed_concat, keys.resultKey_eq isHook]
    by_cases fresh : timesNamed (leafName hook) hooks = 0
    · rw [if_pos fresh]
      by_cases same : leafName hook = name
      · rw [same, Entries.lookup_store_self, if_pos rfl]
        simp
      · rw [Entries.lookup_store_of_ne _ same, if_neg same]
        exact keys.named name plain
    · rw [if_neg fresh, Entries.lookup_store_of_ne _ (repeatedKey_ne plain),
        keys.named name plain]
      by_cases same : leafName hook = name
      · rw [same] at fresh
        rw [if_pos same]
        omega
      · rw [if_neg same]
        omega
  · intro name plain
    rw [timesNamed_concat, keys.resultKey_eq isHook]
    by_cases fresh : timesNamed (leafName hook) hooks = 0
    · rw [if_pos fresh, Entries.lookup_store_of_ne _
        (repeatedKey_ne isHook.plain).symm, keys.repeated name plain]
      by_cases same : leafName hook = name
      · rw [same] at fresh
        rw [if_pos same]
        omega
      · rw [if_neg same]
        omega
    · rw [if_neg fresh]
      by_cases same : leafName hook = name
      · rw [same] at fresh ⊢
        rw [Entries.lookup_store_self, if_pos rfl]
        simp only [Option.isSome_some, true_iff]
        omega
      · rw [Entries.lookup_store_of_ne _ (mt repeatedKey_inj.mp same),
          keys.repeated name plain, if_neg same]
        omega

theorem keysAfter_foldl (areHooks : ∀ hook ∈ hooks, IsHookIn leaf hook)
    (outcome : Path → ChildRun Text) :
    KeysAfter leaf hooks (hooks.foldl (storeHook outcome) []) := by
  induction hooks using List.reverseRecOn with
  | nil =>
    refine ⟨List.nodup_nil, fun name _ => ?_, fun name _ => ?_⟩
    · simp [timesNamed]
    · simp [timesNamed]
  | append_singleton rest hook ih =>
    rw [List.foldl_append]
    refine KeysAfter.step (ih fun other isIn =>
      areHooks other (List.mem_append_left _ isIn)) ?_ outcome
    exact areHooks hook (List.mem_append_right _ List.mem_cons_self)

def NamedAtMostTwice (hooks : List Path) : Prop :=
  ∀ name, timesNamed name hooks ≤ 2

theorem storeHook_of_le_one (keys : KeysAfter leaf hooks results)
    (isHook : IsHookIn leaf hook)
    (few : timesNamed (leafName hook) hooks ≤ 1)
    (outcome : Path → ChildRun Text) :
    (storeHook outcome results hook).map Prod.snd =
      results.map Prod.snd ++ [entryOf (outcome hook)] := by
  have absent : results.lookup (resultKey results hook) = none := by
    rw [← Option.not_isSome_iff_eq_none, keys.resultKey_eq isHook]
    by_cases fresh : timesNamed (leafName hook) hooks = 0
    · rw [if_pos fresh, keys.named _ isHook.plain]
      omega
    · rw [if_neg fresh, keys.repeated _ isHook.plain]
      omega
  unfold storeHook
  rw [Entries.store_of_lookup_eq_none absent, List.map_append]
  rfl

theorem length_storeHook_of_two_le (keys : KeysAfter leaf hooks results)
    (isHook : IsHookIn leaf hook)
    (many : 2 ≤ timesNamed (leafName hook) hooks)
    (outcome : Path → ChildRun Text) :
    (storeHook outcome results hook).length = results.length := by
  have found :
      (results.lookup (resultKey results hook)).isSome = true := by
    rw [keys.resultKey_eq isHook, if_neg (by omega),
      keys.repeated _ isHook.plain]
    exact many
  obtain ⟨value, held⟩ := Option.isSome_iff_exists.mp found
  obtain ⟨front, back, whole, stored⟩ :=
    Entries.exists_store_of_lookup held
  unfold storeHook
  rw [stored, whole, List.length_append, List.length_append]
  rfl

/-- There are as many entries as hooks when no name comes a third time. -/
theorem results_of_foldl (areHooks : ∀ hook ∈ hooks, IsHookIn leaf hook)
    (outcome : Path → ChildRun Text) :
    let results := hooks.foldl (storeHook outcome) []
    results.length ≤ hooks.length ∧
      (results.length = hooks.length → NamedAtMostTwice hooks) ∧
      (NamedAtMostTwice hooks →
        results.map Prod.snd =
          hooks.map fun hook => entryOf (outcome hook)) := by
  induction hooks using List.reverseRecOn with
  | nil => exact ⟨Nat.le_refl 0, fun _ _ => Nat.zero_le 2, fun _ => rfl⟩
  | append_singleton rest hook ih =>
    have earlier : ∀ other ∈ rest, IsHookIn leaf other :=
      fun other isIn => areHooks other (List.mem_append_left _ isIn)
    have isHook : IsHookIn leaf hook :=
      areHooks hook (List.mem_append_right _ List.mem_cons_self)
    have keys := keysAfter_foldl earlier outcome
    obtain ⟨few, exact_, each⟩ := ih earlier
    have restTwice (twice : NamedAtMostTwice (rest ++ [hook])) :
        NamedAtMostTwice rest ∧
          timesNamed (leafName hook) rest ≤ 1 := by
      refine ⟨fun name => ?_, ?_⟩
      · have bound := twice name
        rw [timesNamed_concat] at bound
        omega
      · have bound := twice (leafName hook)
        rw [timesNamed_concat, if_pos rfl] at bound
        omega
    simp only [List.foldl_append, List.foldl_cons, List.foldl_nil,
      List.length_append, List.length_singleton]
    by_cases single : timesNamed (leafName hook) rest ≤ 1
    · have added := storeHook_of_le_one keys isHook single outcome
      have lengths := congrArg List.length added
      rw [List.length_map, List.length_append, List.length_map,
        List.length_singleton] at lengths
      refine ⟨by omega, fun same name => ?_, fun twice => ?_⟩
      · have before := exact_ (by omega) name
        rw [timesNamed_concat]
        by_cases isName : leafName hook = name
        · rw [isName] at single
          rw [if_pos isName]
          omega
        · rw [if_neg isName]
          exact before
      · rw [added, each (restTwice twice).1, List.map_append]
        rfl
    · have kept := length_storeHook_of_two_le keys isHook (by omega)
        outcome
      refine ⟨by omega, fun same => ?_, fun twice => ?_⟩
      · omega
      · exact absurd (restTwice twice).2 single

/--
Every hook has one entry in the results of both loops, and what `dispatch`
returns is what the hooks wrote, one after the other, and then the command's.
-/
structure ShowsEveryHook
    (outcome : Path → ChildRun Text) (hooks : List Path)
    (command : ChildRun Text) : Prop where
  captured :
    ((captureHooks outcome hooks).results.map Prod.snd).Perm
      (hooks.map fun hook => entryOf (outcome hook))
  streamed :
    ((streamHooks outcome hooks).results.map Prod.snd).Perm
      (hooks.map fun hook => entryOf (outcome hook))
  stdout :
    ∀ values : Entries Text ResultEntry,
      values.Perm (captureHooks outcome hooks).results →
        (dispatchResult
            { captureHooks outcome hooks with results := values }
            command).stdout =
          (hooks.map fun hook => (outcome hook).stdout).flatten ++
            command.stdout
  stderr :
    ∀ values : Entries Text ResultEntry,
      values.Perm (captureHooks outcome hooks).results →
        (dispatchResult
            { captureHooks outcome hooks with results := values }
            command).stderr =
          (hooks.map fun hook => (outcome hook).stderr).flatten ++
            command.stderr

theorem joined_iff {outcome : Path → ChildRun Text}
    (each :
      results.map Prod.snd = hooks.map fun hook => entryOf (outcome hook))
    {entryText : ResultEntry → Text} {runText : ChildRun Text → Text}
    (same : ∀ run, entryText (entryOf run) = runText run) (after : Text) :
    (∀ values : Entries Text ResultEntry, values.Perm results →
        values.flatMap (fun entry => entryText entry.2) ++ after =
          (hooks.map fun hook => runText (outcome hook)).flatten ++
            after) ↔
      Commute (hooks.map fun hook => runText (outcome hook)) := by
  have texts :
      results.map (fun entry => entryText entry.2) =
        hooks.map fun hook => runText (outcome hook) := by
    have mapped := congrArg (List.map entryText) each
    rw [List.map_map, List.map_map] at mapped
    simpa [Function.comp_def, same] using mapped
  rw [← texts, ← flatten_map_eq_iff]
  simp only [List.flatMap_def, List.append_cancel_right_eq]

/--
Every hook's result is kept, and shown in the order of execution, if and only
if no name comes a third time and the hooks wrote texts that can be exchanged.
-/
theorem showsEveryHook_iff (leaf : Text) (layers : List (LayerHooks leaf))
    (outcome : Path → ChildRun Text) (command : ChildRun Text) :
    let hooks := executedHooks layers
    ShowsEveryHook outcome hooks command ↔
      NamedAtMostTwice hooks ∧
        Commute (hooks.map fun hook => (outcome hook).stdout) ∧
        Commute (hooks.map fun hook => (outcome hook).stderr) := by
  intro hooks
  have areHooks : ∀ hook ∈ hooks, IsHookIn leaf hook :=
    fun hook isIn => isHookIn_of_mem isIn
  have captured :
      (captureHooks outcome hooks).results =
        hooks.foldl (storeHook outcome) [] :=
    results_foldl id outcome hooks .initial
  have streamed :
      (streamHooks outcome hooks).results =
        hooks.foldl (storeHook outcome) [] :=
    results_foldl shiftedStatus outcome hooks .initial
  have stdoutOf : ∀ run, (entryOf run).stdout = run.stdout :=
    fun run => rfl
  have stderrOf : ∀ run, (entryOf run).stderr = run.stderr :=
    fun run => rfl
  obtain ⟨-, twiceOf, each⟩ := results_of_foldl areHooks outcome
  constructor
  · intro shows
    have lengths := shows.captured.length_eq
    rw [List.length_map, List.length_map, captured] at lengths
    have twice := twiceOf lengths
    have values := each twice
    rw [← captured] at values
    refine ⟨twice, ?_, ?_⟩
    · exact (joined_iff values stdoutOf command.stdout).mp shows.stdout
    · exact (joined_iff values stderrOf command.stderr).mp shows.stderr
  · rintro ⟨twice, stdout, stderr⟩
    have values := each twice
    refine ⟨?_, ?_, ?_, ?_⟩
    · rw [captured, values]
    · rw [streamed, values]
    · rw [← captured] at values
      exact (joined_iff values stdoutOf command.stdout).mpr stdout
    · rw [← captured] at values
      exact (joined_iff values stderrOf command.stderr).mpr stderr

/-- A layer with the hook `check` of the command `run`. -/
def checkLayer (root : String) : LayerHooks "run.d".toList where
  directory := [root.toList, "cli".toList, "run.d".toList]
  names := ["check".toList]
  isLeaf := rfl
  plain := by simp

def writesLayer (hook : Path) : ChildRun Text where
  stdout := (hook.head?).getD []
  stderr := []
  ended := .exited ⟨0, Nat.zero_lt_succ 255⟩

/-- Of three layers with a hook of one name, the second is not kept. -/
theorem third_layer_replaces_the_second :
    let hooks :=
      executedHooks [checkLayer "home", checkLayer "team", checkLayer "work"]
    (captureHooks writesLayer hooks).results.map
          (fun entry => (entry.1, entry.2.stdout)) =
        [("check".toList, "home".toList),
          ("run.d/check".toList, "work".toList)] ∧
      ¬ShowsEveryHook writesLayer hooks
        { stdout := []
          stderr := []
          ended := .exited ⟨0, Nat.zero_lt_succ 255⟩ } := by
  intro hooks
  refine ⟨by decide +kernel, fun shows => ?_⟩
  have lengths := shows.captured.length_eq
  exact absurd lengths (by decide +kernel)

end DeveloperDashboard.Commands
