import DeveloperDashboard.Library.StagedFile
import DeveloperDashboard.Config.LoadGlobal

namespace DeveloperDashboard.Config

open Library StagedFile

/-!
# Saving the writable configuration

Each mutator loads the whole `config.json`, edits it, and renames a temporary
file over it.  Two mutators that do not overlap take effect one after the
other; where they overlap, the first rename is lost.
-/

/-- The value of a key, as the hash it refers to or as a new one. -/
def hashAt (config : ConfigHash) (key : String) : ConfigHash :=
  match config.lookup key with
  | some (.hash entries) => entries
  | _ => []

/-- Edit the hash at the end of a path, with new hashes on the way. -/
def editCreating (edit : ConfigHash → ConfigHash) :
    List String → ConfigHash → ConfigHash
  | [], config => edit config
  | key :: rest, config =>
    config.store key (.hash (editCreating edit rest (hashAt config key)))

def editExisting (edit : ConfigHash → ConfigHash) :
    List String → ConfigHash → ConfigHash
  | [], config => edit config
  | key :: rest, config =>
    match config.lookup key with
    | some (.hash entries) =>
      config.store key (.hash (editExisting edit rest entries))
    | _ => config

/-- `_normalize_home_path`; an undefined home is the empty one. -/
def normalizeHomePath (home path : String) : String :=
  if path = "" || home = "" then path
  else if path = home then "$HOME"
  else if (home ++ "/").toList.isPrefixOf path.toList then
    "$HOME/" ++ String.ofList (path.toList.drop (home.length + 1))
  else path

structure AliasOptions where
  create : Bool
  mode : String

def storedAlias (home path : String) (options : AliasOptions) : JsonValue :=
  let storedPath := normalizeHomePath home path
  if options.create then
    .hash
      ([("path", .string storedPath), ("create", .number "1")] ++
        if options.mode = "" then []
        else [("mode", .string options.mode)])
  else .string storedPath

/--
The mutators of the writable configuration, with their arguments; an undefined
string is the empty one.  The skill aliases are those whose location is the
global configuration.
-/
inductive Mutator where
  | saveGlobalPathAlias (name path : String) (options : AliasOptions)
  | removeGlobalPathAlias (name : String)
  | saveGlobalFileAlias (name path : String) (options : AliasOptions)
  | removeGlobalFileAlias (name : String)
  | saveGlobalDefaults (defaults : ConfigHash)
  | saveSkillAlias
      (aliasKey : String) (segments : List String) (name path : String)
      (options : AliasOptions)
  | removeSkillAlias
      (aliasKey : String) (segments : List String) (name : String)

/-- The edit of `save_global_path_alias` and `save_global_file_alias`. -/
def saveGlobalAlias
    (home aliasKey name path : String) (options : AliasOptions) :
    Option (ConfigHash → ConfigHash) :=
  if name = "" then none
  else if path = "" then none
  else
    some fun config =>
      editCreating
        (fun aliases => aliases.store name (storedAlias home path options))
        [aliasKey] config

/-- The edit of `remove_global_path_alias` and `remove_global_file_alias`. -/
def removeGlobalAlias (aliasKey name : String) :
    Option (ConfigHash → ConfigHash) :=
  if name = "" then none
  else
    some fun config =>
      editCreating (fun aliases => aliases.remove name) [aliasKey] config

/-- The edit of `_save_skill_alias` in the global configuration. -/
def saveSkillAlias
    (home aliasKey : String) (segments : List String) (name path : String)
    (options : AliasOptions) :
    Option (ConfigHash → ConfigHash) :=
  if segments.isEmpty then none
  else if name = "" then none
  else if path = "" then none
  else
    some fun config =>
      editCreating
        (fun aliases => aliases.store name (storedAlias home path options))
        ("skills" :: segments ++ [aliasKey]) config

/-- The edit of `_remove_skill_alias` in the global configuration. -/
def removeSkillAlias
    (aliasKey : String) (segments : List String) (name : String) :
    Option (ConfigHash → ConfigHash) :=
  if segments.isEmpty then none
  else if name = "" then none
  else
    some fun config =>
      editExisting (fun aliases => aliases.remove name)
        ("skills" :: segments ++ [aliasKey]) config

/-- The edit that a mutator makes, unless it dies over its arguments. -/
def mutatorEdit (home : String) :
    Mutator → Option (ConfigHash → ConfigHash)
  | .saveGlobalPathAlias name path options =>
    saveGlobalAlias home "path_aliases" name path options
  | .removeGlobalPathAlias name => removeGlobalAlias "path_aliases" name
  | .saveGlobalFileAlias name path options =>
    saveGlobalAlias home "file_aliases" name path options
  | .removeGlobalFileAlias name => removeGlobalAlias "file_aliases" name
  | .saveGlobalDefaults defaults =>
    some fun current => mergeHashes defaults current
  | .saveSkillAlias aliasKey segments name path options =>
    saveSkillAlias home aliasKey segments name path options
  | .removeSkillAlias aliasKey segments name =>
    removeSkillAlias aliasKey segments name

inductive Writer where
  | first
  | second
  deriving DecidableEq

/--
What the mutators make of the file; `_load_writable_global` reads a missing
file as an empty hash.
-/
def configUpdates (home : String) (mutators : Writer → Mutator) :
    Updates Writer ConfigHash :=
  fun writer =>
    (mutatorEdit home (mutators writer)).map fun edit config =>
      edit (config.getD [])

/--
Mutators that do not read the file while the other one is between its load and
its rename take effect one after the other, and the file is complete in every
state.
-/
theorem saveGlobal_serial_of_separate (home : String)
    (mutators : Writer → Mutator) (config : Option ConfigHash)
    (trace : List (Writer × Action)) (state : State Writer ConfigHash)
    (execution :
      ((system (configUpdates home mutators) config).restrict
        (Separate (configUpdates home mutators))).Execution trace state) :
    (∀ cut, state.file ≠ some (.cut cut)) ∧
      ((∀ writer, state.phase writer = .finished) →
        ∃ order,
          order.Perm [.first, .second] ∧
            state.file =
              (serial (configUpdates home mutators) config order).map
                .whole) := by
  refine ⟨file_ne_cut execution.of_restrict, fun finished => ?_⟩
  obtain ⟨order, serialized⟩ := serialized_of_separate execution
  refine ⟨order, ?_, serialized.file⟩
  rw [List.perm_ext_iff_of_nodup serialized.nodup (by decide)]
  intro writer
  have isIn : writer ∈ order :=
    (serialized.finished writer).mpr (finished writer)
  cases writer <;> simp [isIn]

instance
    (updates : Updates Writer ConfigHash)
    (state : State Writer ConfigHash)
    (event : Writer × Action) :
    Decidable (Separate updates state event) :=
  decidable_of_iff
    (event.2 = .load → (updates event.1).isSome →
      (.first ≠ event.1 → ¬ (state.phase .first).Busy) ∧
        (.second ≠ event.1 → ¬ (state.phase .second).Busy))
    ⟨fun both isLoad isSome other =>
      match other with
      | .first => (both isLoad isSome).1
      | .second => (both isLoad isSome).2,
    fun all isLoad isSome =>
      ⟨all isLoad isSome .first, all isLoad isSome .second⟩⟩

/-- A path alias saved by one process and a file alias by the other. -/
def savedAliases : Writer → Mutator
  | .first =>
    .saveGlobalPathAlias "work" "/srv/work" { create := false, mode := "" }
  | .second =>
    .saveGlobalFileAlias "notes" "/srv/notes" { create := false, mode := "" }

/-- No file, and two processes that have not started. -/
def noConfig : State Writer ConfigHash where
  file := none
  phase _ := .ready

/-- The steps of one process from its load to its rename. -/
def wholeUpdate (writer : Writer) : List (Writer × Action) :=
  [(writer, .load), (writer, .openTemporary), (writer, .closeTemporary),
    (writer, .rename)]

def holdsDomain (file : Option (Content ConfigHash)) (domain : String) :
    Bool :=
  match file with
  | some (.whole config) => (config.lookup domain).isSome
  | _ => false

/-- Both aliases are there when one process follows the other. -/
theorem saveGlobal_serial_of_separate_aliases :
    ∃ (trace : List (Writer × Action)) (state : State Writer ConfigHash),
      (∀ cut, state.file ≠ some (.cut cut)) ∧
        ((∀ writer, state.phase writer = .finished) →
          ∃ order,
            order.Perm [.first, .second] ∧
              state.file =
                (serial (configUpdates "/home/u" savedAliases) none
                  order).map .whole) ∧
        trace = wholeUpdate .first ++ wholeUpdate .second ∧
        (holdsDomain state.file "path_aliases" &&
          holdsDomain state.file "file_aliases") = true := by
  obtain ⟨trace, state, execution, checked⟩ :=
    TransitionSystem.Execution.of_runInputs
      (Initial none)
      (TransitionSystem.guarded
        (Separate (configUpdates "/home/u" savedAliases))
        (next? (configUpdates "/home/u" savedAliases)))
      noConfig
      (wholeUpdate .first ++ wholeUpdate .second)
      (fun trace state =>
        decide (trace = wholeUpdate .first ++ wholeUpdate .second) &&
          (holdsDomain state.file "path_aliases" &&
            holdsDomain state.file "file_aliases"))
      ⟨rfl, fun _ => rfl⟩
      (by decide)
  rw [Bool.and_eq_true, decide_eq_true_iff] at checked
  have serialized :=
    saveGlobal_serial_of_separate "/home/u" savedAliases none trace state
      execution.restrict_of_guarded
  exact ⟨trace, state, serialized.1, serialized.2, checked.1, checked.2⟩

/-- The first process loads, the second updates, and the first goes on. -/
def overlappingUpdates : List (Writer × Action) :=
  (.first, .load) :: wholeUpdate .second ++ (wholeUpdate .first).tail

/--
Where the loads overlap, the file alias is lost: the last file is that of no
order.
-/
theorem saveGlobal_overlap_loses_alias :
    ∃ trace state,
      (system (configUpdates "/home/u" savedAliases) none).Execution
          trace state ∧
        (∀ writer, state.phase writer = .finished) ∧
          ∀ order : List Writer,
            order.Perm [.first, .second] →
              state.file ≠
                (serial (configUpdates "/home/u" savedAliases) none
                  order).map .whole := by
  obtain ⟨trace, state, execution, checked⟩ :=
    TransitionSystem.Execution.of_runInputs
      (Initial none)
      (next? (configUpdates "/home/u" savedAliases))
      noConfig
      overlappingUpdates
      (fun _ state =>
        ((state.phase .first).isFinished &&
            (state.phase .second).isFinished) &&
          !holdsDomain state.file "file_aliases")
      ⟨rfl, fun _ => rfl⟩
      (by decide)
  simp only [Bool.and_eq_true, Bool.not_eq_true'] at checked
  obtain ⟨⟨firstFinished, secondFinished⟩, lost⟩ := checked
  refine ⟨trace, state, execution, ?_, ?_⟩
  · intro writer
    cases writer
    · exact Phase.eq_finished_of_isFinished firstFinished
    · exact Phase.eq_finished_of_isFinished secondFinished
  · intro order isOrder sameFile
    rw [sameFile] at lost
    obtain ⟨one, other, rfl⟩ := List.length_eq_two.mp isOrder.length_eq
    have different : one ≠ other := by
      simpa using isOrder.nodup_iff.mpr (by decide)
    cases one <;> cases other
    · exact different rfl
    · exact absurd lost (by decide)
    · exact absurd lost (by decide)
    · exact different rfl

/-!
# Sections of a configuration

A section is the hash at the end of a path of keys.  An edit of a section
leaves alone every section that is neither on its path nor below it, and the
keys beside the first one of its path.
-/

def readAt (path : List String) (config : ConfigHash) : ConfigHash :=
  path.foldl hashAt config

structure EditsAt (path : List String) (before after : ConfigHash) :
    Prop where
  beside :
    ∀ other,
      ¬ path <+: other → ¬ other <+: path →
        readAt other after = readAt other before
  top :
    ∀ key, path.head? ≠ some key → after.lookup key = before.lookup key

theorem hashAt_store_self
    (config : ConfigHash) (key : String) (entries : ConfigHash) :
    hashAt (config.store key (.hash entries)) key = entries := by
  rw [hashAt, Entries.lookup_store_self]

variable {key : String}

theorem hashAt_congr {one other : ConfigHash}
    (same : one.lookup key = other.lookup key) :
    hashAt one key = hashAt other key := by
  rw [hashAt, same, hashAt]

theorem EditsAt.refl (path : List String) (config : ConfigHash) :
    EditsAt path config config :=
  ⟨fun _ _ _ => rfl, fun _ _ => rfl⟩

theorem EditsAt.store {rest : List String} {config entries : ConfigHash}
    (inside : rest ≠ [] → EditsAt rest (hashAt config key) entries) :
    EditsAt (key :: rest) config (config.store key (.hash entries)) := by
  constructor
  · intro other notBelow notAbove
    cases other with
    | nil => exact absurd List.nil_prefix notAbove
    | cons first others =>
      change readAt others (hashAt _ first) =
        readAt others (hashAt config first)
      by_cases same : key = first
      · subst same
        rw [List.prefix_cons_inj] at notBelow notAbove
        rw [hashAt_store_self]
        refine (inside ?_).beside others notBelow notAbove
        rintro rfl
        exact notBelow List.nil_prefix
      · rw [hashAt_congr (Entries.lookup_store_of_ne config same _)]
  · intro other different
    refine Entries.lookup_store_of_ne config (fun same => ?_) _
    exact different (congrArg some same)

theorem editsAt_editCreating (edit : ConfigHash → ConfigHash)
    {path : List String} (nonempty : path ≠ []) (config : ConfigHash) :
    EditsAt path config (editCreating edit path config) := by
  induction path generalizing config with
  | nil => contradiction
  | cons key rest ih =>
    exact .store fun more => ih more _

theorem editsAt_editExisting (edit : ConfigHash → ConfigHash)
    {path : List String} (nonempty : path ≠ []) (config : ConfigHash) :
    EditsAt path config (editExisting edit path config) := by
  induction path generalizing config with
  | nil => contradiction
  | cons key rest ih =>
    rw [editExisting]
    split
    · next entries found =>
        have isHash : hashAt config key = entries := by
          rw [hashAt, found]
        exact .store fun more => isHash ▸ ih more entries
    · exact .refl _ _

theorem readAt_editCreating (edit : ConfigHash → ConfigHash)
    (path : List String) (config : ConfigHash) :
    readAt path (editCreating edit path config) =
      edit (readAt path config) := by
  induction path generalizing config with
  | nil => rfl
  | cons key rest ih =>
    change readAt rest (hashAt _ key) = _
    rw [editCreating, hashAt_store_self, ih]
    rfl

theorem readAt_nil (path : List String) : readAt path [] = [] := by
  induction path with
  | nil => rfl
  | cons key rest ih => exact ih

theorem lookup_readAt_remove
    (path : List String) (config : ConfigHash) (name other : String) :
    (readAt path (editExisting (Entries.remove · name) path
        config)).lookup other =
      if other = name then none else (readAt path config).lookup other := by
  induction path generalizing config with
  | nil =>
    change (config.remove name).lookup other = _
    split
    · next same => rw [same, Entries.lookup_remove_self]
    · next different =>
        exact Entries.lookup_remove_of_ne config (Ne.symm different)
  | cons key rest ih =>
    change (readAt rest (hashAt _ key)).lookup other =
      if other = name then none
      else (readAt rest (hashAt config key)).lookup other
    rw [editExisting]
    split
    · next entries found =>
        rw [hashAt_store_self, ih, hashAt, found]
    · next notHash =>
        have nothing : hashAt config key = [] := by
          unfold hashAt
          split
          · next entries found => exact absurd found (notHash entries)
          · rfl
        rw [nothing, readAt_nil, Entries.lookup_nil, ite_self]

theorem lookup_foldl_mergeHashes (unnamed : namedIdentity key = none)
    (layers : List ConfigHash) (first : ConfigHash) :
    (layers.foldl mergeHashes first).lookup key =
      (layers.filterMap fun layer => layer.lookup key).foldl
        (fun found value => some (mergeField mergeHashes key found value))
        (first.lookup key) := by
  have collapse (value : JsonValue) :
      collapseField mergeHashes key value = value := by
    simp only [collapseField, unnamed]
  induction layers generalizing first with
  | nil => rfl
  | cons layer rest ih =>
    rw [List.foldl_cons, ih, lookup_mergeHashes]
    cases found : layer.lookup key with
    | none =>
      simp only [List.filterMap_cons, found]
      cases first.lookup key <;> simp [collapse]
    | some value =>
      simp only [List.filterMap_cons, found]
      simp [collapse]

theorem lookup_layered_congr (unnamed : namedIdentity key = none)
    {one other : List ConfigHash}
    (same :
      one.filterMap (fun layer => layer.lookup key) =
        other.filterMap fun layer => layer.lookup key) :
    (layered one).lookup key = (layered other).lookup key := by
  rw [layered, layered, lookup_foldl_mergeHashes unnamed,
    lookup_foldl_mergeHashes unnamed, same]

end DeveloperDashboard.Config
