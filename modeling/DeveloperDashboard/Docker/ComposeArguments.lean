import DeveloperDashboard.Perl.Text
import Mathlib.Algebra.GroupWithZero.Nat

namespace DeveloperDashboard.Docker.ComposeArguments

open Perl

/-!
# The arguments of Compose

`_compose_argument_parts` of DockerCompose.pm sorts the arguments before the
operation into files, project directory and other options, and
`_materialized_command` puts them back around one merged file.  Each argument
plays a role; the roles that the patterns give are compared with those of the
documented forms.  Arguments are defined, as the loop demands.
-/

/-- The parts of an argument list; the last project directory wins. -/
structure Parts where
  globalArgs : List Text := []
  files : List Text := []
  projectDirectory : Option (List Text) := none
  operationArgs : List Text := []
  deriving DecidableEq

namespace Parts

/-- `push @global_args`, before what follows. -/
def withGlobals (parts : Parts) (arguments : List Text) : Parts :=
  { parts with globalArgs := arguments ++ parts.globalArgs }

/-- `push @files, $path`, before what follows. -/
def withFile (parts : Parts) (path : Text) : Parts :=
  { parts with files := path :: parts.files }

/-- `@project_directory = (...)`, unless a later one follows. -/
def withDirectory (parts : Parts) (arguments : List Text) : Parts :=
  { parts with
    projectDirectory := parts.projectDirectory.or (some arguments) }

/-- The directory of the compose root when none was given. -/
def withDefault (parts : Parts) (composeRoot : Text) : Parts :=
  parts.withDirectory ["--project-directory".toList, composeRoot]

end Parts

/-- What an argument is, before the operation has started. -/
inductive Role where
  | stop
  | operation
  | directoryNext
  | directoryHere (path : Text)
  | fileNext
  | fileHere (path : Text)
  | globalNext
  | globalHere

def behind (front text : Text) : Option Text :=
  if front.isPrefixOf text then some (text.drop front.length) else none

/-- What `(.*)$` captures: `.` matches no newline, `$` one at the end. -/
def dotCapture (text : Text) : Option Text :=
  if '\n' ∉ text then some text
  else if text.getLast? = some '\n' ∧ '\n' ∉ text.dropLast then
    some text.dropLast
  else none

/-- `%takes_value`, without the options that earlier tests take. -/
def takesValue : List Text :=
  ["-p", "--project-name", "--env-file", "--profile", "--ansi",
    "--progress", "--parallel"].map String.toList

/-- `/^--(?:project-name|...)=/ || /^-p./` -/
def isJoined (argument : Text) : Bool :=
  (["--project-name=", "--env-file=", "--profile=", "--ansi=",
      "--progress=", "--parallel="].any fun front =>
    front.toList.isPrefixOf argument) ||
  (behind "-p".toList argument).any fun value => value.head?.any (· ≠ '\n')

/--
The tests of the loop in their order, for a way to read what stands behind `=`
and a way to read what is attached to `-f`.
-/
def roleBy (capture attached : Text → Option Text) (argument : Text) : Role :=
  if argument = "--".toList then .stop
  else if argument = "--project-directory".toList then .directoryNext
  else
    match (behind "--project-directory=".toList argument).bind capture with
    | some path => .directoryHere path
    | none =>
      if argument = "-f".toList ∨ argument = "--file".toList then .fileNext
      else
        match ((behind "--file=".toList argument).bind capture).or
            (attached argument) with
        | some path => .fileHere path
        | none =>
          if isJoined argument then .globalHere
          else if takesValue.contains argument then .globalNext
          else if argument.head? = some '-' then .globalHere
          else .operation

def composeRole : Text → Role :=
  roleBy dotCapture fun _ => none

/-- The role of an argument in the documented forms, `-fP` among them. -/
def intendedRole : Text → Role :=
  roleBy some (behind "-f".toList)

/-- The loop of `_compose_argument_parts`. -/
def readArguments : List Text → Except String Parts
  | [] => .ok {}
  | argument :: rest =>
    match composeRole argument with
    | .stop => .ok { operationArgs := rest }
    | .operation => .ok { operationArgs := argument :: rest }
    | .directoryNext =>
      match rest with
      | [] =>
        .error "Docker Compose --project-directory requires a path\n"
      | path :: later =>
        if path = [] ∨ path.head? = some '-' then
          .error "Docker Compose --project-directory requires a path\n"
        else
          (readArguments later).map (·.withDirectory [argument, path])
    | .directoryHere path =>
      if path = [] then
        .error "Docker Compose --project-directory requires a path\n"
      else (readArguments rest).map (·.withDirectory [argument])
    | .fileNext =>
      match rest with
      | [] =>
        .error ("Docker Compose " ++ String.ofList argument ++
          " requires a path\n")
      | path :: later =>
        if path = [] then
          .error ("Docker Compose " ++ String.ofList argument ++
            " requires a path\n")
        else (readArguments later).map (·.withFile path)
    | .fileHere path =>
      if path = [] then .error "Docker Compose --file requires a path\n"
      else (readArguments rest).map (·.withFile path)
    | .globalNext =>
      match rest with
      | [] =>
        .error ("Docker Compose " ++ String.ofList argument ++
          " requires a value\n")
      | value :: later =>
        if value = [] then
          .error ("Docker Compose " ++ String.ofList argument ++
            " requires a value\n")
        else (readArguments later).map (·.withGlobals [argument, value])
    | .globalHere => (readArguments rest).map (·.withGlobals [argument])

/-- `_compose_argument_parts( args => $args, compose_root => $root )` -/
def composeArgumentParts (composeRoot : Text) (arguments : List Text) :
    Except String Parts :=
  (readArguments arguments).map (·.withDefault composeRoot)

/-- The command that `_materialized_command` returns, behind `compose`. -/
def materializedArgs (parts : Parts) (tmpFile : Text) : List Text :=
  parts.globalArgs ++ parts.projectDirectory.getD [] ++
    ["-f".toList, tmpFile] ++ parts.operationArgs

def meaningBy (role : Text → Role) : List Text → Parts
  | [] => {}
  | argument :: rest =>
    match role argument with
    | .stop => { operationArgs := rest }
    | .operation => { operationArgs := argument :: rest }
    | .directoryNext =>
      match rest with
      | [] => {}
      | path :: later =>
        (meaningBy role later).withDirectory [argument, path]
    | .directoryHere _ => (meaningBy role rest).withDirectory [argument]
    | .fileNext =>
      match rest with
      | [] => {}
      | path :: later => (meaningBy role later).withFile path
    | .fileHere path => (meaningBy role rest).withFile path
    | .globalNext =>
      match rest with
      | [] => {}
      | value :: later =>
        (meaningBy role later).withGlobals [argument, value]
    | .globalHere => (meaningBy role rest).withGlobals [argument]

def intended (composeRoot : Text) (arguments : List Text) : Parts :=
  (meaningBy intendedRole arguments).withDefault composeRoot

/--
No argument is lost, duplicated or moved, and the materialized command denotes
the same invocation of the merged file.
-/
def RolesKept (composeRoot : Text) (arguments : List Text)
    (parts : Parts) : Prop :=
  parts = intended composeRoot arguments ∧
    ∀ tmpFile,
      intended composeRoot (materializedArgs parts tmpFile) =
        { intended composeRoot arguments with files := [tmpFile] }

/-- A path attached to `-f`, or a path behind `=` with a newline. -/
def isMisread (argument : Text) : Bool :=
  ((behind "--project-directory=".toList argument).any fun path =>
    (dotCapture path).isNone) ||
  ((behind "--file=".toList argument).any fun path => path.contains '\n') ||
  (decide (argument ≠ "-f".toList) && (behind "-f".toList argument).isSome)

/-- The options of an argument list, without the values that follow them. -/
def optionArguments : List Text → List Text
  | [] => []
  | argument :: rest =>
    match intendedRole argument with
    | .stop | .operation => []
    | .directoryNext | .fileNext | .globalNext =>
      match rest with
      | [] => [argument]
      | _ :: later => argument :: optionArguments later
    | .directoryHere _ | .fileHere _ | .globalHere =>
      argument :: optionArguments rest

/--
No option before the operation is misread, and what stands behind a first `--`
does not begin with an option.
-/
def PlainForms (arguments : List Text) : Prop :=
  (∀ argument ∈ optionArguments arguments, isMisread argument = false) ∧
    ∀ first ∈ (meaningBy intendedRole arguments).operationArgs.head?,
      first.head? ≠ some '-'

section Beginnings

variable {role : Text → Role} {argument : Text}

theorem meaningBy_globalNext {value : Text} {later : List Text}
    (next : role argument = .globalNext) :
    meaningBy role (argument :: value :: later) =
      (meaningBy role later).withGlobals [argument, value] := by
  rw [meaningBy, next]

theorem meaningBy_globalHere {rest : List Text}
    (here : role argument = .globalHere) :
    meaningBy role (argument :: rest) =
      (meaningBy role rest).withGlobals [argument] := by
  rw [meaningBy.eq_def]
  simp only [here]

theorem meaningBy_directoryNext {path : Text} {later : List Text}
    (next : role argument = .directoryNext) :
    meaningBy role (argument :: path :: later) =
      (meaningBy role later).withDirectory [argument, path] := by
  rw [meaningBy, next]

theorem meaningBy_directoryHere {path : Text} {rest : List Text}
    (here : role argument = .directoryHere path) :
    meaningBy role (argument :: rest) =
      (meaningBy role rest).withDirectory [argument] := by
  rw [meaningBy.eq_def]
  simp only [here]

theorem length_operationArgs_le (arguments : List Text) :
    (meaningBy role arguments).operationArgs.length ≤ arguments.length := by
  fun_induction meaningBy role arguments with
  | case3 => exact Nat.le_refl _
  | case1 | case4 | case7 | case10 => exact Nat.zero_le _
  | case2 => exact Nat.le_succ _
  | case6 _ _ _ _ bound | case9 _ _ _ _ bound | case12 _ _ _ bound =>
    exact Nat.le_succ_of_le bound
  | case5 _ _ _ _ bound | case8 _ _ _ _ bound | case11 _ _ _ _ bound =>
    exact Nat.le_succ_of_le (Nat.le_succ_of_le bound)

theorem meaningBy_of_operation {arguments : List Text}
    (starts : ∀ first ∈ arguments.head?, role first = .operation) :
    meaningBy role arguments = { operationArgs := arguments } := by
  cases arguments with
  | nil => rfl
  | cons first rest =>
    unfold meaningBy
    rw [starts first rfl]

end Beginnings

theorem eq_append_of_behind {front text rest : Text}
    (found : behind front text = some rest) : text = front ++ rest := by
  unfold behind at found
  split at found
  · next starts =>
      obtain ⟨tail, rfl⟩ := List.isPrefixOf_iff_prefix.mp starts
      rw [List.drop_left] at found
      rw [Option.some.inj found]
  · cases found

theorem length_dotCapture {path captured : Text}
    (found : dotCapture path = some captured) :
    captured = path ∧ '\n' ∉ path ∨
      captured.length < path.length ∧ '\n' ∈ path := by
  unfold dotCapture at found
  split at found
  · next plain => exact Or.inl ⟨(Option.some.inj found).symm, plain⟩
  · next broken =>
      have inside := not_not.mp broken
      split at found
      · obtain rfl := Option.some.inj found
        have positive := List.length_pos_of_mem inside
        refine Or.inr ⟨?_, inside⟩
        rw [List.length_dropLast]
        omega
      · cases found

theorem roleBy_congr {capture other attached another : Text → Option Text}
    {argument : Text}
    (directory :
      (behind "--project-directory=".toList argument).bind capture =
        (behind "--project-directory=".toList argument).bind other)
    (file :
      ((behind "--file=".toList argument).bind capture).or
          (attached argument) =
        ((behind "--file=".toList argument).bind other).or
          (another argument)) :
    roleBy capture attached argument = roleBy other another argument := by
  unfold roleBy
  rw [directory, file]

theorem composeRole_directory (path : Text) :
    composeRole ("--project-directory=".toList ++ path) =
      match dotCapture path with
      | some found => .directoryHere found
      | none => .globalHere :=
  rfl

theorem composeRole_file (path : Text) :
    composeRole ("--file=".toList ++ path) =
      match (dotCapture path).or none with
      | some found => .fileHere found
      | none => .globalHere :=
  rfl

/-- Both ways agree on an argument that is not misread. -/
theorem roles_of_plain {argument : Text}
    (plain : isMisread argument = false) :
    composeRole argument = intendedRole argument ∨
      ∃ path other,
        composeRole argument = .directoryHere path ∧
          intendedRole argument = .directoryHere other := by
  rw [isMisread, Bool.or_eq_false_iff, Bool.or_eq_false_iff] at plain
  obtain ⟨⟨directory, file⟩, attached⟩ := plain
  cases isDirectory : behind "--project-directory=".toList argument with
  | some path =>
    rw [isDirectory, Option.any_some] at directory
    obtain rfl := eq_append_of_behind isDirectory
    rw [composeRole_directory]
    cases captured : dotCapture path with
    | none => rw [captured] at directory; cases directory
    | some found => exact Or.inr ⟨found, path, rfl, rfl⟩
  | none =>
    left
    by_cases short : argument = "-f".toList
    · rw [short]
      rfl
    rw [decide_eq_true short, Bool.true_and,
      Option.isSome_eq_false_iff, Option.isNone_iff_eq_none] at attached
    refine roleBy_congr (by rw [isDirectory]; rfl) ?_
    rw [attached]
    cases isFile : behind "--file=".toList argument with
    | some path =>
      rw [isFile, Option.any_some] at file
      have captured : dotCapture path = some path := by
        refine if_pos fun broken => ?_
        rw [List.contains_iff_mem.mpr broken] at file
        cases file
      exact congrArg (Option.or · none) captured
    | none => rfl

theorem roles_of_misread {argument : Text}
    (misread : isMisread argument = true) :
    (composeRole argument = .globalHere ∧
        ((∃ path, intendedRole argument = .fileHere path) ∨
          ∃ path, intendedRole argument = .directoryHere path)) ∨
      ∃ path other,
        composeRole argument = .fileHere path ∧
          intendedRole argument = .fileHere other ∧
          path.length < other.length := by
  rw [isMisread, Bool.or_eq_true, Bool.or_eq_true] at misread
  rcases misread with (directory | file) | attached
  · obtain ⟨path, isDirectory, missed⟩ :=
      (Option.any_eq_true _ _).mp directory
    obtain rfl := eq_append_of_behind isDirectory
    rw [composeRole_directory, Option.isNone_iff_eq_none.mp missed]
    exact Or.inl ⟨rfl, Or.inr ⟨path, rfl⟩⟩
  · obtain ⟨path, isFile, broken⟩ := (Option.any_eq_true _ _).mp file
    obtain rfl := eq_append_of_behind isFile
    rw [composeRole_file]
    cases captured : dotCapture path with
    | none => exact Or.inl ⟨rfl, Or.inl ⟨path, rfl⟩⟩
    | some found =>
      rcases length_dotCapture captured with ⟨-, plain⟩ | ⟨shorter, -⟩
      · exact absurd (List.contains_iff_mem.mp broken) plain
      · exact Or.inr ⟨found, path, rfl, rfl, shorter⟩
  · obtain ⟨other, isSome⟩ := Bool.and_eq_true_iff.mp attached
    obtain ⟨path, found⟩ := Option.isSome_iff_exists.mp isSome
    obtain rfl := eq_append_of_behind found
    cases path with
    | nil => exact absurd rfl (of_decide_eq_true other)
    | cons char rest => exact Or.inl ⟨rfl, Or.inl ⟨char :: rest, rfl⟩⟩

theorem exists_of_map_eq_ok {result : Except String Parts}
    {edit : Parts → Parts} {parts : Parts}
    (same : result.map edit = .ok parts) :
    ∃ earlier, result = .ok earlier ∧ parts = edit earlier := by
  cases result with
  | error => cases same
  | ok earlier => exact ⟨earlier, rfl, (Except.ok.inj same).symm⟩

theorem meaningBy_of_readArguments {arguments : List Text} {parts : Parts}
    (read : readArguments arguments = .ok parts) :
    parts = meaningBy composeRole arguments := by
  fun_induction readArguments arguments generalizing parts with
  | case1 => exact (Except.ok.inj read).symm
  | case2 _ _ role | case3 _ _ role =>
    unfold meaningBy
    rw [role]
    exact (Except.ok.inj read).symm
  | case6 _ role _ _ _ ih
  | case8 _ _ _ role _ ih
  | case11 _ role _ _ _ ih
  | case13 _ _ _ role _ ih
  | case16 _ role _ _ _ ih
  | case17 _ _ role ih =>
    obtain ⟨earlier, ran, rfl⟩ := exists_of_map_eq_ok read
    unfold meaningBy
    rw [role, ih ran]
  | _ => cases read

def Role.isPlain : Role → Bool
  | .fileHere _ | .directoryHere _ => false
  | _ => true

theorem plain_of_isPlain {argument : Text}
    (plain : (intendedRole argument).isPlain = true) :
    isMisread argument = false ∧
      composeRole argument = intendedRole argument := by
  cases misread : isMisread argument with
  | false =>
    refine ⟨rfl, ?_⟩
    rcases roles_of_plain misread with same | ⟨path, other, -, isHere⟩
    · exact same
    · rw [isHere] at plain
      cases plain
  | true =>
    rcases roles_of_misread misread with
      ⟨-, ⟨path, isHere⟩ | ⟨path, isHere⟩⟩ | ⟨path, other, -, isHere, -⟩ <;>
    · rw [isHere] at plain
      cases plain

def fileWeight (parts : Parts) : Nat :=
  (parts.files.map fun path => path.length + 1).sum

/-- More options are global, or the files weigh less. -/
def Shifted (parts other : Parts) : Prop :=
  other.globalArgs.length + fileWeight parts <
    parts.globalArgs.length + fileWeight other

@[simp] theorem fileWeight_withFile (parts : Parts) (path : Text) :
    fileWeight (parts.withFile path) = path.length + 1 + fileWeight parts :=
  List.sum_cons

/-- All options are plain and the parts agree, or the difference shows. -/
def Told (options : List Text) (parts other : Parts) : Prop :=
  ((∀ argument ∈ options, isMisread argument = false) ∧ parts = other) ∨
    (∃ argument ∈ options, isMisread argument = true) ∧ Shifted parts other

namespace Told

variable {options : List Text} {parts other : Parts}

theorem le (told : Told options parts other) :
    other.globalArgs.length + fileWeight parts ≤
      parts.globalArgs.length + fileWeight other := by
  rcases told with ⟨-, rfl⟩ | ⟨-, shifted⟩
  · exact Nat.le_refl _
  · exact Nat.le_of_lt shifted

theorem cons {argument : Text} {globals weight : Nat}
    (edit : Parts → Parts) (told : Told options parts other)
    (plain : isMisread argument = false)
    (globalArgs : ∀ parts, (edit parts).globalArgs.length =
      globals + parts.globalArgs.length)
    (files : ∀ parts, fileWeight (edit parts) = weight + fileWeight parts) :
    Told (argument :: options) (edit parts) (edit other) := by
  rcases told with ⟨others, rfl⟩ | ⟨⟨found, member, misread⟩, shifted⟩
  · exact Or.inl ⟨List.forall_mem_cons.mpr ⟨plain, others⟩, rfl⟩
  · refine Or.inr ⟨⟨found, List.mem_cons_of_mem _ member, misread⟩, ?_⟩
    unfold Shifted at *
    rw [globalArgs, globalArgs, files, files]
    omega

theorem withGlobals {argument : Text} (told : Told options parts other)
    (plain : isMisread argument = false) (arguments : List Text) :
    Told (argument :: options) (parts.withGlobals arguments)
      (other.withGlobals arguments) :=
  told.cons (·.withGlobals arguments) plain (fun _ => List.length_append)
    fun _ => (Nat.zero_add _).symm

theorem withDirectory {argument : Text} (told : Told options parts other)
    (plain : isMisread argument = false) (arguments : List Text) :
    Told (argument :: options) (parts.withDirectory arguments)
      (other.withDirectory arguments) :=
  told.cons (·.withDirectory arguments) plain
    (fun _ => (Nat.zero_add _).symm) fun _ => (Nat.zero_add _).symm

theorem withFile {argument : Text} (told : Told options parts other)
    (plain : isMisread argument = false) (path : Text) :
    Told (argument :: options) (parts.withFile path)
      (other.withFile path) :=
  told.cons (·.withFile path) plain (fun _ => (Nat.zero_add _).symm)
    fun _ => fileWeight_withFile _ _

end Told

/-- Nothing is misread and both readings agree, or the difference shows. -/
theorem told_meaningBy (arguments : List Text) :
    Told (optionArguments arguments) (meaningBy composeRole arguments)
      (meaningBy intendedRole arguments) := by
  fun_induction optionArguments arguments with
  | case1 => exact Or.inl ⟨fun _ member => (by cases member), rfl⟩
  | case2 argument rest role | case3 argument rest role =>
    obtain ⟨-, same⟩ := plain_of_isPlain (by rw [role]; rfl)
    refine Or.inl ⟨fun _ member => (by cases member), ?_⟩
    unfold meaningBy
    simp only [same, role]
  | case4 argument role | case6 argument role | case8 argument role =>
    obtain ⟨plain, same⟩ := plain_of_isPlain (by rw [role]; rfl)
    refine Or.inl ⟨List.forall_mem_singleton.mpr plain, ?_⟩
    unfold meaningBy
    simp only [same, role]
  | case5 argument role value later told =>
    obtain ⟨plain, same⟩ := plain_of_isPlain (by rw [role]; rfl)
    unfold meaningBy
    simp only [same, role]
    exact told.withDirectory plain _
  | case7 argument role value later told =>
    obtain ⟨plain, same⟩ := plain_of_isPlain (by rw [role]; rfl)
    unfold meaningBy
    simp only [same, role]
    exact told.withFile plain value
  | case9 argument role value later told =>
    obtain ⟨plain, same⟩ := plain_of_isPlain (by rw [role]; rfl)
    unfold meaningBy
    simp only [same, role]
    exact told.withGlobals plain _
  | case12 argument rest role told =>
    obtain ⟨plain, same⟩ := plain_of_isPlain (by rw [role]; rfl)
    unfold meaningBy
    simp only [same, role]
    exact told.withGlobals plain _
  | case10 argument rest path role told =>
    unfold meaningBy
    simp only [role]
    cases misread : isMisread argument with
    | false =>
      rcases roles_of_plain misread with same | ⟨here, -, same, -⟩ <;>
      · simp only [same, role]
        exact told.withDirectory misread _
    | true =>
      have bound := told.le
      rcases roles_of_misread misread with
        ⟨same, -⟩ | ⟨_, _, -, isHere, -⟩
      · simp only [same]
        refine Or.inr ⟨⟨argument, List.mem_cons_self, misread⟩, ?_⟩
        simp [Shifted, fileWeight, Parts.withGlobals,
          Parts.withDirectory] at bound ⊢
        omega
      · rw [role] at isHere
        cases isHere
  | case11 argument rest path role told =>
    unfold meaningBy
    simp only [role]
    cases misread : isMisread argument with
    | false =>
      rcases roles_of_plain misread with same | ⟨_, _, -, isHere⟩
      · simp only [same, role]
        exact told.withFile misread _
      · rw [role] at isHere
        cases isHere
    | true =>
      have bound := told.le
      rcases roles_of_misread misread with
        ⟨same, -⟩ | ⟨short, long, same, isHere, shorter⟩
      · simp only [same]
        refine Or.inr ⟨⟨argument, List.mem_cons_self, misread⟩, ?_⟩
        unfold Shifted
        rw [fileWeight_withFile]
        simp [fileWeight, Parts.withGlobals, Parts.withFile] at bound ⊢
        omega
      · obtain rfl := Role.fileHere.inj (role.symm.trans isHere)
        simp only [same]
        refine Or.inr ⟨⟨argument, List.mem_cons_self, misread⟩, ?_⟩
        unfold Shifted
        rw [fileWeight_withFile, fileWeight_withFile]
        change (meaningBy intendedRole rest).globalArgs.length + _ <
          (meaningBy composeRole rest).globalArgs.length + _
        omega

section Readings

variable {role : Text → Role}

/-- The options of a reading say the same again. -/
theorem meaningBy_globalArgs (role : Text → Role)
    (arguments tail : List Text) :
    meaningBy role ((meaningBy role arguments).globalArgs ++ tail) =
      (meaningBy role tail).withGlobals
        (meaningBy role arguments).globalArgs := by
  fun_induction meaningBy role arguments with
  | case1 | case2 | case3 | case4 | case7 | case10 => rfl
  | case5 _ _ _ _ ih
  | case6 _ _ _ _ ih
  | case8 _ _ _ _ ih
  | case9 _ _ _ _ ih =>
    exact ih
  | case11 argument next value later ih =>
    exact (meaningBy_globalNext next).trans
      (congrArg (·.withGlobals [argument, value]) ih)
  | case12 argument rest here ih =>
    exact (meaningBy_globalHere here).trans
      (congrArg (·.withGlobals [argument]) ih)

/-- The last project directory says the same again. -/
theorem meaningBy_projectDirectory {arguments found : List Text}
    (member : (meaningBy role arguments).projectDirectory = some found)
    (tail : List Text) :
    meaningBy role (found ++ tail) =
      (meaningBy role tail).withDirectory found := by
  fun_induction meaningBy role arguments with
  | case5 argument next path later ih =>
    rcases Option.or_eq_some_iff.mp member with earlier | ⟨-, last⟩
    · exact ih earlier
    · obtain rfl := Option.some.inj last
      exact meaningBy_directoryNext next
  | case6 argument rest path here ih =>
    rcases Option.or_eq_some_iff.mp member with earlier | ⟨-, last⟩
    · exact ih earlier
    · obtain rfl := Option.some.inj last
      exact meaningBy_directoryHere here
  | case8 _ _ _ _ ih
  | case9 _ _ _ _ ih
  | case11 _ _ _ _ ih
  | case12 _ _ _ ih =>
    exact ih member
  | _ => cases member

theorem length_operationArgs_of_ne {first : Text} (rest : List Text)
    (other : role first ≠ .operation) :
    (meaningBy role (first :: rest)).operationArgs.length ≤ rest.length := by
  unfold meaningBy
  split
  · exact Nat.le_refl _
  · next starts => exact absurd starts other
  all_goals
    first
      | exact length_operationArgs_le _
      | cases rest with
        | nil => exact Nat.zero_le _
        | cons path later =>
          exact Nat.le_succ_of_le (length_operationArgs_le _)

theorem operation_of_operationArgs {arguments : List Text}
    (same : (meaningBy role arguments).operationArgs = arguments) :
    ∀ first ∈ arguments.head?, role first = .operation := by
  cases arguments with
  | nil => exact fun _ member => by cases member
  | cons first rest =>
    rintro found member
    obtain rfl := Option.some.inj member
    by_contra other
    have bound := length_operationArgs_of_ne rest other
    rw [same] at bound
    exact Nat.not_succ_le_self _ bound

end Readings

/-- An argument starts the operation unless it begins with a dash. -/
theorem intendedRole_eq_operation_iff (argument : Text) :
    intendedRole argument = .operation ↔ argument.head? ≠ some '-' := by
  constructor
  · intro operation dash
    unfold intendedRole roleBy at operation
    rw [if_pos dash] at operation
    split at operation
    · cases operation
    split at operation
    · cases operation
    split at operation
    · cases operation
    split at operation
    · cases operation
    split at operation
    · cases operation
    split at operation
    · cases operation
    split at operation <;> cases operation
  · intro plain
    have apart : ∀ front : Text, front.head? = some '-' →
        front.isPrefixOf argument = false := by
      intro front dash
      refine Bool.eq_false_iff.mpr fun starts => plain ?_
      obtain ⟨tail, rfl⟩ := List.isPrefixOf_iff_prefix.mp starts
      rw [List.head?_append, dash]
      rfl
    have silent : ∀ front : Text, front.head? = some '-' →
        behind front argument = none := fun front dash =>
      if_neg (Bool.eq_false_iff.mp (apart front dash))
    have other : ∀ option : Text, option.head? = some '-' →
        argument ≠ option := fun option dash same =>
      plain (same ▸ dash)
    have joined : isJoined argument = false := by
      rw [isJoined, silent "-p".toList rfl]
      refine Bool.or_eq_false_iff.mpr ⟨List.any_eq_false.mpr ?_, rfl⟩
      have dashes : ∀ front ∈ ["--project-name=", "--env-file=",
          "--profile=", "--ansi=", "--progress=", "--parallel="],
          front.toList.head? = some '-' := by decide
      exact fun front member =>
        Bool.eq_false_iff.mp (apart _ (dashes front member))
    have listed : takesValue.contains argument = false := by
      refine Bool.eq_false_iff.mpr fun contained => ?_
      have dashes : ∀ option ∈ takesValue, option.head? = some '-' := by
        decide
      exact plain (dashes argument (List.contains_iff_mem.mp contained))
    unfold intendedRole roleBy
    rw [silent "--project-directory=".toList rfl,
      silent "--file=".toList rfl, silent "-f".toList rfl, joined, listed,
      if_neg (other "--".toList rfl),
      if_neg (other "--project-directory".toList rfl), if_neg plain]
    exact if_neg (not_or.mpr
      ⟨other "-f".toList rfl, other "--file".toList rfl⟩)

theorem meaning_materializedArgs_iff (composeRoot : Text)
    (arguments : List Text) (tmpFile : Text) :
    (meaningBy intendedRole
          (materializedArgs ((meaningBy intendedRole arguments).withDefault
            composeRoot) tmpFile)).withDefault composeRoot =
        { (meaningBy intendedRole arguments).withDefault composeRoot with
          files := [tmpFile] } ↔
      ∀ first ∈ (meaningBy intendedRole arguments).operationArgs.head?,
        first.head? ≠ some '-' := by
  generalize shown : (meaningBy intendedRole arguments).withDefault
    composeRoot = parts
  obtain ⟨directory, chosen, again⟩ : ∃ directory,
      parts.projectDirectory = some directory ∧
        ∀ tail, meaningBy intendedRole (directory ++ tail) =
          (meaningBy intendedRole tail).withDirectory directory := by
    rw [← shown]
    cases given : (meaningBy intendedRole arguments).projectDirectory with
    | none => exact ⟨_, congrArg (Option.or · _) given, fun _ => rfl⟩
    | some found =>
      exact ⟨found, congrArg (Option.or · _) given,
        meaningBy_projectDirectory given⟩
  have denotes : meaningBy intendedRole (materializedArgs parts tmpFile) =
      (((meaningBy intendedRole parts.operationArgs).withFile
        tmpFile).withDirectory directory).withGlobals parts.globalArgs := by
    rw [materializedArgs, chosen, Option.getD_some, List.append_assoc,
      List.append_assoc, ← shown]
    refine (meaningBy_globalArgs _ _ _).trans ?_
    rw [again]
    rfl
  have operations := congrArg Parts.operationArgs shown
  change (meaningBy intendedRole arguments).operationArgs = _ at operations
  rw [denotes, operations]
  constructor
  · intro same first member
    have unchanged := congrArg Parts.operationArgs same
    exact (intendedRole_eq_operation_iff first).mp
      (operation_of_operationArgs unchanged first member)
  · intro plain
    rw [meaningBy_of_operation fun first member =>
      (intendedRole_eq_operation_iff first).mpr (plain first member)]
    obtain ⟨globalArgs, files, projectDirectory, operationArgs⟩ := parts
    obtain rfl := chosen
    simp [Parts.withGlobals, Parts.withFile, Parts.withDirectory,
      Parts.withDefault]

theorem composeArgumentParts_keepsRoles_iff {composeRoot : Text}
    {arguments : List Text} {parts : Parts}
    (read : composeArgumentParts composeRoot arguments = .ok parts) :
    RolesKept composeRoot arguments parts ↔ PlainForms arguments := by
  obtain ⟨earlier, ran, rfl⟩ := exists_of_map_eq_ok read
  obtain rfl := meaningBy_of_readArguments ran
  unfold RolesKept PlainForms intended
  rcases told_meaningBy arguments with ⟨plain, same⟩ | ⟨misread, shifted⟩
  · rw [same]
    refine (and_iff_right rfl).trans (Iff.trans ?_ (and_iff_right plain).symm)
    rw [forall_congr' fun tmpFile => meaning_materializedArgs_iff _ _ tmpFile,
      forall_const]
  · refine iff_of_false (fun kept => ?_) fun plain => ?_
    · have globals := congrArg (fun parts => parts.globalArgs.length) kept.1
      have files := congrArg fileWeight kept.1
      change _ < _ at shifted
      change (meaningBy composeRole arguments).globalArgs.length =
        (meaningBy intendedRole arguments).globalArgs.length at globals
      change fileWeight (meaningBy composeRole arguments) =
        fileWeight (meaningBy intendedRole arguments) at files
      omega
    · obtain ⟨argument, member, isMisread⟩ := misread
      exact Bool.false_ne_true ((plain.1 argument member).symm.trans isMisread)

/-- Files, a directory, an option with a value, and an operation. -/
theorem composeArgumentParts_keepsRoles_up :
    RolesKept "/srv".toList
        (["--file=a.yml", "-p", "demo", "-f", "b.yml", "up", "-d"].map
          String.toList)
        { globalArgs := ["-p".toList, "demo".toList]
          files := ["a.yml".toList, "b.yml".toList]
          projectDirectory :=
            some ["--project-directory".toList, "/srv".toList]
          operationArgs := ["up".toList, "-d".toList] } ↔
      PlainForms
        (["--file=a.yml", "-p", "demo", "-f", "b.yml", "up", "-d"].map
          String.toList) :=
  composeArgumentParts_keepsRoles_iff rfl

/-- A file attached to `-f` is passed on beside the merged one. -/
theorem attached_file_is_not_merged :
    ∃ parts,
      composeArgumentParts "/srv".toList ["-fa.yml".toList, "up".toList] =
          .ok parts ∧
        parts.files = [] ∧
        ¬ RolesKept "/srv".toList ["-fa.yml".toList, "up".toList] parts := by
  refine ⟨_, rfl, rfl, fun kept => ?_⟩
  have files := congrArg Parts.files kept.1
  revert files
  decide

end DeveloperDashboard.Docker.ComposeArguments
