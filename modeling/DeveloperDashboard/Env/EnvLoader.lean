import DeveloperDashboard.Perl.Text
import DeveloperDashboard.Library.Entries
import Mathlib.Data.List.Dedup
import Mathlib.Data.List.Sort

namespace DeveloperDashboard.Env

open Perl

/-!
# Lines of an env file

An env file is read as bytes, one line after the other: include directives,
comments, and assignments whose values may refer to variables.
-/

/-- The class `\s` on a byte string. -/
def isByteSpace (char : Char) : Bool :=
  decide (9 ≤ char.toNat ∧ char.toNat ≤ 13) || decide (char.toNat = 32)

def trimBytes (text : Text) : Text :=
  text.dropWhile isByteSpace

/-- `_include_directive`. -/
def includeDirective (line : Text) : Option Text :=
  match trimBytes line with
  | '#' :: rest =>
    let word := trimBytes rest
    if "include".toList.isPrefixOf word then
      match trimBytes (word.drop 7) with
      | '<' :: target =>
        let spec := target.takeWhile (· ≠ '>')
        match target.dropWhile (· ≠ '>') with
        | '>' :: after =>
          if spec ≠ [] && after.all isByteSpace then some spec
          else none
        | _ => none
      | _ => none
    else none
  | _ => none

def afterCommentEnd : Text → Option Text
  | '*' :: '/' :: rest => some rest
  | _ :: rest => afterCommentEnd rest
  | [] => none

/--
`_strip_env_comments`, for as many comments as a line can have: whether a block
comment is open afterwards, and what is left of the line.
-/
def stripComments : Nat → Bool → Text → Bool × Text
  | 0, inComment, _ => (inComment, [])
  | fuel + 1, true, line =>
    match afterCommentEnd (trimBytes line) with
    | some rest => stripComments fuel false rest
    | none => (true, [])
  | fuel + 1, false, line =>
    let trimmed := trimBytes line
    if "/*".toList.isPrefixOf trimmed then
      stripComments fuel true (trimmed.drop 2)
    else if "#".toList.isPrefixOf trimmed ||
        "//".toList.isPrefixOf trimmed then
      (false, [])
    else (false, line)

/-- `_strip_env_comments`. -/
def stripEnvComments (inComment : Bool) (line : Text) : Bool × Text :=
  stripComments (line.length + 1) inComment line

/-- The pattern `/\A\s*([^=\s]+)\s*=(.*)\z/`: the key and the value. -/
def envAssignment (line : Text) : Option (Text × Text) :=
  let trimmed := trimBytes line
  let isKeyChar := fun char : Char => char ≠ '=' && !isByteSpace char
  let key := trimmed.takeWhile isKeyChar
  match trimBytes (trimmed.dropWhile isKeyChar) with
  | '=' :: value => if key = [] then none else some (key, value)
  | _ => none

/-- The class `[A-Za-z_]`. -/
def isEnvStart (char : Char) : Bool :=
  char.isAlpha || char = '_'

/-- The class `[A-Za-z0-9_]`. -/
def isEnvChar (char : Char) : Bool :=
  char.isAlphanum || char = '_'

/-- The pattern `/\A[A-Za-z_][A-Za-z0-9_]*\z/`. -/
def isEnvKey (key : Text) : Bool :=
  (key.head?.any isEnvStart) && key.all isEnvChar

/-- The errors of the loader, without their line numbers. -/
inductive EnvError where
  | invalidMarker
  | invalidLine (file line : Text)
  | invalidKey (file key : Text)
  | invalidFunction (file function : Text)
  | functionFailed (file function message : Text)
  | includeFailed (spec : Text)
  | unterminatedComment (file : Text)
  | recursion
deriving DecidableEq

abbrev EnvLookup :=
  Text → Option Text

/--
What the loader takes from outside: how deep values may nest, the Perl
functions that a value can call, the variables that an included skill sets, and
the decoder of the marker.
-/
structure EnvHost where
  depth : Nat
  call : Text → EnvLookup → Option (Except Text (Option Text))
  includes : Text → EnvLookup → List (Text × Text) × Option EnvError
  decodeKeys : Text → Option (List (Option Text))

/-- `_lookup_env_symbol`. -/
def lookupEnvSymbol (env : EnvLookup) (name : Text) : Option Text :=
  if name = [] then none else env name

/-- The pattern `(?:[A-Za-z_][A-Za-z0-9_]*::)*[A-Za-z_][A-Za-z0-9_]*`. -/
def isFunctionName : Nat → Text → Bool
  | 0, _ => false
  | fuel + 1, name =>
    (name.head?.any isEnvStart) &&
      match name.dropWhile isEnvChar with
      | [] => true
      | ':' :: ':' :: rest => isFunctionName fuel rest
      | _ => false

/-- `_call_env_function`. -/
def callEnvFunction
    (host : EnvHost) (file : Text) (env : EnvLookup) (symbol : Text) :
    Except EnvError (Option Text) :=
  let function := symbol.take (symbol.length - 2)
  if isFunctionName (function.length + 1) function then
    match host.call function env with
    | none => .error (.invalidFunction file function)
    | some (.error message) =>
      .error (.functionFailed file function message)
    | some (.ok value) => .ok value
  else .error (.invalidFunction file function)

/-- An expression, split at its first `:-`. -/
def splitDefault : Text → Text × Option Text
  | ':' :: '-' :: rest => ([], some rest)
  | char :: rest => (char :: (splitDefault rest).1, (splitDefault rest).2)
  | [] => ([], none)

/-- `_expand_braced_env_expression`; `expand` expands a default. -/
def expandBracedExpression (host : EnvHost) (file : Text) (env : EnvLookup)
    (expand : Text → Except EnvError Text) (expression : Text) :
    Except EnvError Text := do
  let (symbol, default) := splitDefault expression
  let value ←
    if "()".toList.isSuffixOf symbol then
      callEnvFunction host file env symbol
    else .ok (lookupEnvSymbol env symbol)
  match value, default with
  | some (char :: rest), _ => .ok (char :: rest)
  | _, some text => expand text
  | _, none => .ok []

/-- The expression of `/\$\{([^}]+)\}/` at the start of a text. -/
def bracedExpression (text : Text) : Option Text :=
  match text with
  | '$' :: '\x7b' :: rest =>
    let expression := rest.takeWhile (· ≠ '\x7d')
    if expression ≠ [] && rest.contains '\x7d' then some expression
    else none
  | _ => none

/-- Replace the braced expressions, after the rest of one that was taken. -/
def expandBraces (expand : Text → Except EnvError Text) :
    Nat → Text → Except EnvError Text
  | _, [] => .ok []
  | skip + 1, _ :: rest => expandBraces expand skip rest
  | 0, char :: rest =>
    match bracedExpression (char :: rest) with
    | some expression => do
        let value ← expand expression
        let tail ← expandBraces expand (expression.length + 2) rest
        return value ++ tail
    | none => do
        let tail ← expandBraces expand 0 rest
        return char :: tail

/-- Replace the bare names, after the rest of one that was taken. -/
def expandNames (env : EnvLookup) : Nat → Text → Text
  | _, [] => []
  | skip + 1, _ :: rest => expandNames env skip rest
  | 0, char :: rest =>
    let name := rest.takeWhile isEnvChar
    if char = '$' && (rest.head?.any isEnvStart) then
      (lookupEnvSymbol env name).getD [] ++
        expandNames env name.length rest
    else char :: expandNames env 0 rest

/-- The substitution of a leading `~`. -/
def expandHome (env : EnvLookup) (value : Text) : Text :=
  match value with
  | '~' :: rest =>
    if rest = [] || rest.head? == some '/' then
      let home := (env "HOME".toList).getD []
      (if isTrue home then home else ['~']) ++ rest
    else value
  | _ => value

/-- `_expand_env_value`, with room for so many values inside each other. -/
def expandEnvValue (host : EnvHost) (file : Text) (env : EnvLookup) :
    Nat → Text → Except EnvError Text
  | 0, _ => .error .recursion
  | depth + 1, value => do
      let braced ←
        expandBraces
          (expandBracedExpression host file env
            (expandEnvValue host file env depth))
          0 (expandHome env value)
      return expandNames env 0 braced

open Library

/-!
# Loading env files

`load_files` saves the variables that the caller exported, loads the files one
after the other into the live environment, and puts the variables back.
`_load_skill_layer_specs` does so around every single file, and keeps the
values that a deeper skill replaces under other names.
-/

abbrev Environment :=
  Entries Text Text

/-- An env file: its path, what identifies it, and its lines. -/
structure EnvFile where
  path : Text
  identity : Text
  isFile : Bool
  lines : List Text

/-- `$INHERITED_ENV_KEYS`. -/
def inheritedEnvKeys : Text :=
  "_DEVELOPER_DASHBOARD_INHERITED_ENV_KEYS".toList

def listedKeys (host : EnvHost) (env : EnvLookup) :
    Except EnvError (List Text) :=
  match env inheritedEnvKeys with
  | none => .ok []
  | some [] => .ok []
  | some raw =>
    match host.decodeKeys raw with
    | none => .error .invalidMarker
    | some keys =>
      if keys.all fun key => key.any isEnvKey then
        .ok (keys.filterMap id)
      else .error .invalidMarker

/--
`_capture_inherited_env`: the marker, and the listed keys that are there, with
their values.
-/
def captureInheritedEnv (host : EnvHost) (env : EnvLookup) :
    Except EnvError (Entries Text (Option Text)) :=
  (listedKeys host env).map fun keys =>
    (inheritedEnvKeys, env inheritedEnvKeys) ::
      (keys.filter fun key => (env key).isSome).map
        fun key => (key, env key)

/-- `_restore_inherited_env`. -/
def restoreInheritedEnv
    (saved : Entries Text (Option Text)) (env : Environment) :
    Environment :=
  (saved.map Prod.fst).foldl
    (Entries.assign fun key => (saved.lookup key).join) env

structure LineState where
  env : Environment
  inComment : Bool
  error : Option EnvError

/-- What a line of an env file says, apart from comments. -/
inductive EnvStatement where
  | include' (spec : Text)
  | blank
  | invalidLine (line : Text)
  | invalidKey (key : Text)
  | assign (key value : Text)

/-- What a line says that is rid of its comments. -/
def envStatement (text : Text) : EnvStatement :=
  if text.all isByteSpace then .blank
  else
    match envAssignment text with
    | none => .invalidLine text
    | some (key, value) =>
      if isEnvKey key then .assign key value else .invalidKey key

/--
Read a line: whether a comment is open after it, and what it says.  A directive
whose spec is `0` is false where the loop tests it.
-/
def readEnvLine (inComment : Bool) (line : Text) :
    Bool × EnvStatement :=
  match (includeDirective line).filter isTrue with
  | some spec => (inComment, .include' spec)
  | none =>
    let stripped := stripEnvComments inComment line
    (stripped.1, envStatement stripped.2)

def setVariables (env : Environment) (changes : List (Text × Text)) :
    Environment :=
  changes.foldl (fun env entry => env.store entry.1 entry.2) env

section Loading

variable (host : EnvHost)

def runStatement (file : Text) (env : Environment) :
    EnvStatement → Environment × Option EnvError
  | .include' spec =>
    let included := host.includes spec env.lookup
    (setVariables env included.1, included.2)
  | .blank => (env, none)
  | .invalidLine line => (env, some (.invalidLine file line))
  | .invalidKey key => (env, some (.invalidKey file key))
  | .assign key value =>
    match expandEnvValue host file env.lookup host.depth value with
    | .ok expanded => (env.store key expanded, none)
    | .error error => (env, some error)

/-- One round of the loop of `_load_env_file`. -/
def loadLine (file : Text) (state : LineState) (line : Text) :
    LineState :=
  if state.error.isSome then state
  else
    let read := readEnvLine state.inComment line
    let after := runStatement host file state.env read.2
    { env := after.1, inComment := read.1, error := after.2 }

/-- `_load_env_file`: the environment afterwards, and how the load died. -/
def loadEnvFile (file : EnvFile) (env : Environment) :
    Environment × Option EnvError :=
  let final :=
    file.lines.foldl (loadLine host file.path)
      { env := env, inComment := false, error := none }
  (final.env, final.error.or
      (if final.inComment then some (.unterminatedComment file.path)
      else none))

/-- Where `load_files` is. -/
structure FilesState where
  env : Environment
  seen : List Text
  loaded : List Text
  error : Option EnvError

/-- One round of the loop of `load_files`. -/
def loadNextFile (state : FilesState) (file : EnvFile) : FilesState :=
  if state.error.isSome || file.path.isEmpty ||
      state.seen.contains file.identity then state
  else if file.isFile then
    let after := loadEnvFile host file state.env
    { env := after.1
      seen := file.identity :: state.seen
      loaded :=
        if after.2.isSome then state.loaded
        else state.loaded ++ [file.path]
      error := after.2 }
  else { state with seen := file.identity :: state.seen }

/-- `load_files`. -/
def loadFiles (env : Environment) (files : List EnvFile) : FilesState :=
  match captureInheritedEnv host env.lookup with
  | .error error =>
    { env := env, seen := [], loaded := [], error := some error }
  | .ok saved =>
    let final :=
      files.foldl (loadNextFile host)
        { env := env, seen := [], loaded := [], error := none }
    { final with env := restoreInheritedEnv saved final.env }

structure SkillLayer where
  skillPrefix : Text
  file : EnvFile

/-- Where `_load_skill_layer_specs` is. -/
structure LayersState where
  env : Environment
  keyPrefix : Entries Text Text
  seen : List Text
  loaded : List Text
  error : Option EnvError

/-- `$spec->{prefix} || ''`. -/
def layerPrefix (layer : SkillLayer) : Text :=
  if Perl.isTrue layer.skillPrefix then layer.skillPrefix else []

/-- `sort keys %ENV`. -/
def sortedKeys (env : Environment) : List Text :=
  (env.map Prod.fst).dedup.insertionSort fun left right => left ≤ right

/-- The name that keeps a value which a deeper skill replaces. -/
def aliasName (skillPrefix key : Text) : Text :=
  skillPrefix ++ ['_'] ++ key

/-- The value that a key keeps under another name, and that name. -/
def keptAlias? (before : EnvLookup) (skillPrefix : Text)
    (keyPrefix : Entries Text Text) (key : Text) :
    Option (Text × Text) :=
  match keyPrefix.lookup key, before key with
  | some parent, some value =>
    if parent = skillPrefix then none
    else some (aliasName parent key, value)
  | _, _ => none

/-- Whether a key is passed over after a layer. -/
def isUnchanged (before after : EnvLookup) (key : Text) : Bool :=
  decide (key = "DEVELOPER_DASHBOARD_ENV_AUDIT".toList ∨
    ((before key).isSome ∧ before key = after key))

def prefixKey (before : EnvLookup) (skillPrefix : Text)
    (state : Environment × Entries Text Text) (key : Text) :
    Environment × Entries Text Text :=
  if isUnchanged before state.1.lookup key then state
  else
    (setVariables state.1
        (keptAlias? before skillPrefix state.2 key).toList,
      if skillPrefix = [] then state.2
      else state.2.store key skillPrefix)

/-- One round of the loop of `_load_skill_layer_specs`. -/
def loadNextLayer (state : LayersState) (layer : SkillLayer) :
    LayersState :=
  if state.error.isSome || state.seen.contains layer.file.identity then
    state
  else if layer.file.isFile then
    match captureInheritedEnv host state.env.lookup with
    | .error error =>
      { state with
        seen := layer.file.identity :: state.seen, error := some error }
    | .ok saved =>
      let after := loadEnvFile host layer.file state.env
      let restored := restoreInheritedEnv saved after.1
      if after.2.isSome then
        { state with
          env := restored
          seen := layer.file.identity :: state.seen
          error := after.2 }
      else
        let kept :=
          (sortedKeys restored).foldl
            (prefixKey state.env.lookup (layerPrefix layer))
            (restored, state.keyPrefix)
        { env := kept.1
          keyPrefix := kept.2
          seen := layer.file.identity :: state.seen
          loaded := state.loaded ++ [layer.file.path]
          error := none }
  else { state with seen := layer.file.identity :: state.seen }

/-- `_load_skill_layer_specs`. -/
def loadSkillLayerSpecs (env : Environment) (layers : List SkillLayer) :
    LayersState :=
  layers.foldl (loadNextLayer host)
    { env := env
      keyPrefix := []
      seen := []
      loaded := []
      error := none }

end Loading

end DeveloperDashboard.Env
