import DeveloperDashboard.Skills.InstalledSkills

namespace DeveloperDashboard.Skills

open Library Perl

/-!
# Sources of skills

A skill is installed from a bare name, an owner and a name, the URL of a
repository, or a local checkout.  The name of the skill is the last part.
-/

/-- The class `[A-Za-z0-9_.-]`. -/
def isSourceChar (char : Char) : Bool :=
  char.isAlphanum || char == '_' || char == '.' || char == '-'

/-- The class `[A-Za-z0-9+.-]`. -/
def isSchemeChar (char : Char) : Bool :=
  char.isAlphanum || char == '+' || char == '.' || char == '-'

/-- The pattern `\A[A-Za-z][A-Za-z0-9+.-]*://`. -/
def isUrl : Text → Bool
  | [] => false
  | first :: rest =>
    first.isAlpha &&
      ("://".toList).isPrefixOf (rest.dropWhile isSchemeChar)

/-- The pattern `\A[A-Za-z0-9_.-]+\z`. -/
def isBareName (source : Text) : Bool :=
  decide (source ≠ []) && source.all isSourceChar

/-- The pattern of an owner and a name, with one slash between them. -/
def isOwnerAndName (source : Text) : Bool :=
  match source.splitOn '/' with
  | [owner, name] => isBareName owner && isBareName name
  | _ => false

/-- `_normalize_install_source`; the flag is `-d $source`. -/
def normalizeInstallSource (isDirectory : Bool) (source : Text) : Text :=
  if source = [] then source
  else if isDirectory then source
  else if isUrl source then source
  else if ("git@".toList).isPrefixOf source then source
  else if isOwnerAndName source then
    "https://github.com/".toList ++ source
  else if isBareName source then
    "https://github.com/manif3station/".toList ++ source
  else source

/-- `basename` of a path text. -/
def baseName (path : Text) : Text :=
  let trimmed := path.rdropWhile fun char => char == '/'
  if trimmed = [] then path.take 1
  else ((trimmed.splitOn '/').getLast?).getD []

/-- The shortest front that `(\.git)?$` may follow. -/
def withoutGit (name : Text) : Option Text :=
  ((List.range' 1 name.length).find? fun count =>
      (["", "\n", ".git", ".git\n"].map String.toList).contains
        (name.drop count)).map
    name.take

/-- `_extract_repo_name`; the flag is `-d $url`. -/
def extractRepoName (isDirectory : Bool) (url : Text) : Option Text :=
  if !isTrue url then none
  else if isDirectory then some (baseName url)
  else if url.contains '/' then
    withoutGit (((url.splitOn '/').getLast?).getD [])
  else none

/-- `_is_safe_skill_name`. -/
def isSafeSkillName (name : Text) : Bool :=
  decide ((validatedPathSegments name).length = 1)

/-!
# Installing a skill

An install checks its source, removes what is at the install path, and then
fetches: it copies a local checkout, or clones a repository.  What the programs
do that it starts, and how far they come, is up to them.
-/

abbrev Files :=
  Path → Option (FileNode Text)

def pathText (path : Path) : Text :=
  if path = [] then ['/'] else path.flatMap fun name => '/' :: name

/-- The class `\s` on bytes. -/
def isByteSpace (char : Char) : Bool :=
  decide (9 ≤ char.toNat ∧ char.toNat ≤ 13) || decide (char.toNat = 32)

/-- The pattern `/^VERSION\s*=\s*\S+/m`. -/
def hasVersion (content : Text) : Bool :=
  anyLineStart
    (fun rest =>
      if ("VERSION".toList).isPrefixOf rest then
        match (rest.drop 7).dropWhile isByteSpace with
        | '=' :: value => decide (value.dropWhile isByteSpace ≠ [])
        | _ => false
      else false)
    none content

/-- How far `remove_tree` comes. -/
inductive Removal where
  | complete
  | partly (message : Text) (kept : Path → Bool)

/-- What a program has written below its target when it ends. -/
structure Fetched where
  written : Entries Path (FileNode Text)
  error : Option Text

structure InstallOutcomes where
  /-- The error of `git check-ref-format`. -/
  branchCheck : Text → Option Text
  /-- What `git rev-parse` tells. -/
  currentBranch : Except Text (Option Text)
  removal : Removal
  rsyncAvailable : Bool
  /-- What rsync does, or else the copy of `_copy_tree`. -/
  sync : Fetched
  clone : Text → Fetched
  retryRemoval : Removal
  cleanup : Removal

namespace Removal

def keeps : Removal → Path → Bool
  | complete, _ => false
  | partly _ kept, path => kept path

def message? : Removal → Option Text
  | complete => none
  | partly message _ => some message

end Removal

namespace Files

/-- `remove_tree`. -/
def removeTree (files : Files) (target : Path) (removal : Removal) : Files :=
  fun path =>
    if target.isPrefixOf path && !removal.keeps path then none
    else files path

/-- `_remove_existing_skill_path`. -/
def removeExistingSkillPath
    (files : Files) (skillPath : Path) (removal : Removal) :
    Option Text × Files :=
  if files skillPath = none then (none, files)
  else
    (removal.message?.map fun message =>
        "Failed to replace existing skill at ".toList ++
          pathText skillPath ++ ": ".toList ++ message,
      files.removeTree skillPath removal)

def write (files : Files) (target : Path) (fetched : Fetched) : Files :=
  fun path =>
    if target.isPrefixOf path then
      (fetched.written.lookup (path.drop target.length)).or (files path)
    else files path

/-- `ensure_dir`. -/
def ensureDir (files : Files) (dir : Path) : Files :=
  fun path =>
    if path.isPrefixOf dir then (files path).or (some .folder)
    else files path

end Files

/-- What `_local_checked_out_source` returns. -/
inductive LocalSource where
  | none
  | refused (error : Text)
  | checkout (dir : Path)
deriving DecidableEq

/-- The directories that texts name, by their real paths. -/
structure SourceDirs (tree : FileTree Text Text) where
  dirOf : Text → Option Path
  isFolder_of_dirOf :
    ∀ source dir, dirOf source = some dir → tree.isFolder dir = true

structure SkillManager where
  tree : FileTree Text Text
  dirs : SourceDirs tree
  /-- The option `-b`. -/
  cloneBranch : Option Text

/-- What passed the checks before anything is done. -/
structure InstallPlan where
  localSource : Option Path
  cloneSource : Text
  skillPath : Path
deriving DecidableEq

inductive InstallResult where
  | refused (error : Text)
  | removeFailed (error : Text)
  | fetchFailed (error : Text)
  /-- The new tree is there; what follows prepares it. -/
  | fetched
deriving DecidableEq

namespace SkillManager

variable (manager : SkillManager)

/-- `_local_skill_has_version`. -/
def localSkillHasVersion (dir : Path) : Bool :=
  match manager.tree.content? (dir ++ [".env".toList]) with
  | none => false
  | some content => hasVersion content

/-- `_local_checked_out_source`. -/
def localCheckedOutSource (source : Text) : LocalSource :=
  if !isTrue source then .none
  else if isUrl source then .none
  else
    match manager.dirs.dirOf source with
    | none => .none
    | some dir =>
      if !manager.tree.isFolder (dir ++ [".git".toList]) then
        .refused
          ("Local skill source '".toList ++ source ++
            "' is missing a .git directory".toList)
      else if !manager.localSkillHasVersion dir then
        .refused
          ("Local skill source '".toList ++ source ++
            "' is missing a .env file with VERSION".toList)
      else .checkout dir

/-- The checks of `_install_to_skills_root` on the name of the skill. -/
def planNamed (source : Text) (skillsRoot : Path) (localSource : Option Path)
    (cloneSource : Text) (repoName : Option Text) :
    Except Text InstallPlan :=
  match repoName with
  | none =>
    .error ("Unable to extract repo name from ".toList ++ source)
  | some name =>
    if !isTrue name then
      .error ("Unable to extract repo name from ".toList ++ source)
    else if !isSafeSkillName name then
      .error
        ("Refusing to install skill outside skills root: '".toList ++
          source ++ "' resolves to the unsafe skill name '".toList ++
          name ++ "'".toList)
    else if localSource.isSome && manager.cloneBranch.isSome then
      .error
        ("The -b/--branch option applies only to remote Git skill".toList ++
          " sources".toList)
    else if manager.cloneBranch = some [] then
      .error "Missing remote skill branch".toList
    else .ok ⟨localSource, cloneSource, skillsRoot ++ [name]⟩

/-- The checks of `_install_to_skills_root` that start no program. -/
def planInstall (source : Text) (skillsRoot : Path) :
    Except Text InstallPlan :=
  if !isTrue source then .error "Missing skill source".toList
  else
    match manager.localCheckedOutSource source with
    | .refused error => .error error
    | .checkout dir =>
      manager.planNamed source skillsRoot (some dir) source dir.getLast?
    | .none =>
      let cloneSource :=
        normalizeInstallSource (manager.dirs.dirOf source).isSome source
      manager.planNamed source skillsRoot none cloneSource
        (extractRepoName (manager.dirs.dirOf cloneSource).isSome
          cloneSource)

/-- `_install_path_contained`, of paths without symbolic links. -/
def isPathContained (files : Files) (skillPath skillsRoot : Path) : Bool :=
  decide (files skillPath = none) || decide (skillsRoot ≠ [])

/-- The loop of `_clone_skill_source` over its branches. -/
def cloneSkillSource
    (outcomes : InstallOutcomes) (cloneSource : Text) (target : Path)
    (errors : List Text) (files : Files) :
    List Text → Option Text × Files
  | [] =>
    (some
      ("Failed to clone ".toList ++ cloneSource ++ ": ".toList ++
        ("; ".toList).intercalate errors), files)
  | branch :: rest =>
    let fetched := outcomes.clone branch
    let files := files.write target fetched
    match fetched.error with
    | none => (none, files)
    | some message =>
      let errors :=
        errors ++
          ["branch '".toList ++ branch ++ "': ".toList ++ message]
      if rest = [] then
        (some
          ("Failed to clone ".toList ++ cloneSource ++ ": ".toList ++
            ("; ".toList).intercalate errors), files)
      else
        match
          files.removeExistingSkillPath target outcomes.retryRemoval with
        | (some cleanup, files) =>
          (some
            ("Unable to retry skill clone after branch '".toList ++
              branch ++ "' failed: ".toList ++ cleanup), files)
        | (none, files) =>
          cloneSkillSource outcomes cloneSource target errors files rest

/-- `_sync_local_skill_source`. -/
def syncLocalSkillSource
    (outcomes : InstallOutcomes) (dir target : Path) (files : Files) :
    Option Text × Files :=
  (outcomes.sync.error.map fun message =>
      "Failed to sync local skill source ".toList ++ pathText dir ++
        (if outcomes.rsyncAvailable then ": ".toList
        else " without rsync: ".toList) ++
        message,
    files.write target outcomes.sync)

def settleFetch (outcomes : InstallOutcomes) (skillPath : Path) :
    Option Text × Files → InstallResult × Files
  | (none, files) => (.fetched, files)
  | (some error, files) =>
    (.fetchFailed error, match files skillPath with
      | some .folder => files.removeTree skillPath outcomes.cleanup
      | _ => files)

def fetch (outcomes : InstallOutcomes) (plan : InstallPlan)
    (branch : Option Text) (files : Files) :
    InstallResult × Files :=
  settleFetch outcomes plan.skillPath
    (match plan.localSource with
    | some dir => syncLocalSkillSource outcomes dir plan.skillPath files
    | none =>
      cloneSkillSource outcomes plan.cloneSource plan.skillPath [] files
        (match branch with
        | some branch => [branch]
        | none => ["master".toList, "main".toList]))

def branchToClone
    (outcomes : InstallOutcomes) (plan : InstallPlan) (files : Files) :
    Except Text (Option Text) :=
  if plan.localSource.isNone && decide (files plan.skillPath ≠ none) &&
      manager.cloneBranch.isNone then
    if files (plan.skillPath ++ [".git".toList]) = none then .ok none
    else
      match outcomes.currentBranch with
      | .error message =>
        .error
          ("Unable to detect current branch for installed skill".toList ++
            " at ".toList ++ pathText plan.skillPath ++ ": ".toList ++
            message)
      | .ok branch => .ok branch
  else .ok manager.cloneBranch

/-- `_install_to_skills_root`, up to where the new tree is there. -/
def installToSkillsRoot
    (source : Text) (skillsRoot : Path) (outcomes : InstallOutcomes) :
    InstallResult × Files :=
  let files : Files := manager.tree.entries.lookup
  match manager.planInstall source skillsRoot with
  | .error error => (.refused error, files)
  | .ok plan =>
    match manager.cloneBranch.bind outcomes.branchCheck with
    | some message =>
      (.refused
        ("Invalid skill branch '".toList ++
          manager.cloneBranch.getD [] ++ "': ".toList ++ message), files)
    | none =>
      let files := files.ensureDir skillsRoot
      if !isPathContained files plan.skillPath skillsRoot then
        (.refused
          ("Refusing to install skill outside skills root: '".toList ++
            pathText plan.skillPath ++
            "' does not resolve inside '".toList ++
            pathText skillsRoot ++ "'".toList), files)
      else
        match manager.branchToClone outcomes plan files with
        | .error error => (.refused error, files)
        | .ok branch =>
          match
            files.removeExistingSkillPath plan.skillPath
              outcomes.removal with
          | (some error, files) => (.removeFailed error, files)
          | (none, files) => fetch outcomes plan branch files

end SkillManager

end DeveloperDashboard.Skills
