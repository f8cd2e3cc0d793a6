import DeveloperDashboard.Config.SaveGlobal
import DeveloperDashboard.Skills.InstalledSkills

namespace DeveloperDashboard.Skills

open Library Perl Config

/-!
# Aliases of skills

An alias of a skill is shipped in the configuration of the skill, or stored in
that of its nearest writable ancestor or in the global one.  Reading goes over
all skills twice, so that what is stored comes after what is shipped.
-/

inductive AliasDomain where
  | path
  | file
  deriving DecidableEq

def AliasDomain.key : AliasDomain → String
  | .path => "path_aliases"
  | .file => "file_aliases"

/-- The configuration files, beside the folders of the skills. -/
structure AliasConfig (Content : Type) where
  paths : PathRegistry Content
  home : String
  /-- `config/config.json`, by the directory of the skill -/
  skillConfigs : Entries Path ConfigHash
  /-- The deepest of `_global_config_files`, and the others. -/
  writable : Option ConfigHash
  inherited : ConfigFiles
  repo : ConfigHash

/-- `split_skill_alias_name`. -/
def splitSkillAliasName (name : Text) : Option (List Text × Text) :=
  if '.' ∉ name then none
  else
    let parts := name.splitOn '.'
    if parts.any fun part => decide (part = []) then none
    else some (parts.dropLast, parts.getLast?.getD [])

def qualifiedName (segments : List Text) (name : String) : String :=
  String.ofList (List.intercalate ['.'] (segments ++ [name.toList]))

/-- The name of an alias that a skill ships, unless it is qualified. -/
def shippedName (skillName : Text) (name : String) : String :=
  if (skillName ++ ['.']).isPrefixOf name.toList then name
  else qualifiedName [skillName] name

/-- `_expand_config_path`. -/
def expandConfigPath (home path : String) : String :=
  if path = "" then path
  else if path = "$HOME" then home
  else if "$HOME/".toList.isPrefixOf path.toList then
    home ++ String.ofList (path.toList.drop 5)
  else if path.toList.head? = some '~' then
    home ++ String.ofList (path.toList.drop 1)
  else path

/-- `_expand_config_path` of any value; only a string can change. -/
def expandConfigValue (home : String) : JsonValue → JsonValue
  | .string path => .string (expandConfigPath home path)
  | value => value

/-- The value of an alias in `_expand_path_aliases`. -/
def expandAlias (home : String) : JsonValue → JsonValue
  | .hash entries =>
    .hash (Entries.store entries "path"
      (expandConfigValue home
        ((Entries.lookup entries "path").getD .null)))
  | value => expandConfigValue home value

/-- `_expand_path_aliases`. -/
def expandPathAliases (home : String) (aliases : ConfigHash) :
    ConfigHash :=
  aliases.mapValues fun _ => expandAlias home

def overwrite (aliases new : ConfigHash) : ConfigHash :=
  Entries.overlay (fun _ _ value => value) aliases new

def readSection (qualified : String → String)
    (aliases leaf : ConfigHash) : ConfigHash :=
  (leaf.filter fun entry => decide (entry.1 ≠ "")).foldl
    (fun aliases entry =>
      aliases.store (qualified entry.1)
        ((leaf.lookup entry.1).getD entry.2))
    aliases

namespace WriteLocation

def sections (key : String) : WriteLocation → List String
  | .skill _ remaining => remaining.map String.ofList ++ [key]
  | .global remaining => "skills" :: remaining.map String.ofList ++ [key]

end WriteLocation

namespace AliasConfig

variable {Content : Type} (config : AliasConfig Content)

/-- The file of a location; a missing one reads as an empty hash. -/
def fileAt : WriteLocation → ConfigHash
  | .skill dir _ => (config.skillConfigs.lookup dir).getD []
  | .global _ => config.writable.getD []

def writeFile (location : WriteLocation) (file : ConfigHash) :
    AliasConfig Content :=
  match location with
  | .skill dir _ =>
    { config with skillConfigs := config.skillConfigs.store dir file }
  | .global _ => { config with writable := some file }

def storedAt (domain : AliasDomain) (location : WriteLocation) :
    ConfigHash :=
  readAt (location.sections domain.key) (config.fileAt location)

/-- The part of a configuration that `only_key` selects. -/
def selectKey : Option String → ConfigHash → ConfigHash
  | none, found => found
  | some key, found =>
    match found.lookup key with
    | some value => [(key, value)]
    | none => []

/-- `_skill_config_hash`. -/
def skillConfigHash (layers : List Path) (onlyKey : Option String) :
    ConfigHash :=
  (layers.filterMap config.skillConfigs.lookup).foldl
    (fun merged found => mergeHashes merged (selectKey onlyKey found)) []

/-- `_skill_path_alias_entries`, and `_skill_config_entries` without a key. -/
def skillConfigEntries (onlyKey : Option String) :
    List (Text × ConfigHash) :=
  (config.paths.installedSkillEntries false
      config.paths.directoryInventory).filterMap fun skill =>
    let found := config.skillConfigHash skill.layers onlyKey
    if found.isEmpty then none else some (skill.skillName, found)

def selectedKey : AliasDomain → Option String
  | .path => some AliasDomain.path.key
  | .file => none

/-- The fragments that `merged` is given or finds. -/
def skillFragments : AliasDomain → List ConfigHash
  | .path => []
  | .file =>
    (config.skillConfigEntries none).map fun entry =>
      [("_" ++ String.ofList entry.1, .hash entry.2)]

def nestedDefaults (domain : AliasDomain)
    (entry : PathRegistry.NestedEntry) : ConfigHash :=
  if entry.segments.length = 1 then []
  else
    match config.skillConfigs.lookup entry.dir with
    | none => []
    | some node => hashAt node domain.key

def overrides (domain : AliasDomain)
    (entry : PathRegistry.NestedEntry) : ConfigHash :=
  match entry.configWriteLocation with
  | none => []
  | some location => config.storedAt domain location

/-- `_nested_skill_alias_entries`. -/
def nestedSkillAliasEntries (domain : AliasDomain) : ConfigHash :=
  let entries := config.paths.nestedSkillEntries PathRegistry.allWithLocations
  let defaults :=
    entries.foldl
      (fun aliases entry =>
        readSection (qualifiedName entry.segments) aliases
          (config.nestedDefaults domain entry))
      []
  entries.foldl
    (fun aliases entry =>
      readSection (qualifiedName entry.segments) aliases
        (config.overrides domain entry))
    defaults

/-- `_skill_path_aliases` and `_skill_file_aliases`. -/
def skillAliases (domain : AliasDomain) : ConfigHash :=
  let shipped :=
    (config.skillConfigEntries (selectedKey domain)).foldl
      (fun aliases entry =>
        readSection (shippedName entry.1) aliases
          (hashAt entry.2 domain.key))
      []
  overwrite shipped (config.nestedSkillAliasEntries domain)

/-- `path_aliases` and `file_aliases`. -/
def aliases (domain : AliasDomain) : ConfigHash :=
  let found :=
    merged (config.writable :: config.inherited)
      (config.skillFragments domain) config.repo
  overwrite
    (expandPathAliases config.home (hashAt found domain.key))
    (expandPathAliases config.home (config.skillAliases domain))

/-- `_save_skill_alias`. -/
def saveSkillAlias
    (domain : AliasDomain) (segments : List Text) (aliasName : Text)
    (path : String) (options : AliasOptions) :
    Option (AliasConfig Content) :=
  if segments = [] then none
  else if aliasName = [] then none
  else if path = "" then none
  else
    (config.paths.skillConfigWriteLocation segments).map fun location =>
      config.writeFile location
        (editCreating
          (fun aliases =>
            aliases.store (String.ofList aliasName)
              (storedAlias config.home path options))
          (location.sections domain.key) (config.fileAt location))

/-- `save_path_alias` and `save_file_alias`. -/
def saveNamedAlias (domain : AliasDomain) (name : Text) (path : String)
    (options : AliasOptions) :
    Option (AliasConfig Content) :=
  match splitSkillAliasName name with
  | some (segments, aliasName) =>
    config.saveSkillAlias domain segments aliasName path options
  | none =>
    (saveGlobalAlias config.home domain.key (String.ofList name) path
      options).map fun edit =>
      { config with writable := some (edit (config.writable.getD [])) }

/-- `_remove_skill_alias`. -/
def removeSkillAlias
    (domain : AliasDomain) (segments : List Text) (aliasName : Text) :
    Option (AliasConfig Content) :=
  if segments = [] then none
  else if aliasName = [] then none
  else
    let removed (location : WriteLocation) :=
      config.writeFile location
        (editExisting (Entries.remove · (String.ofList aliasName))
          (location.sections domain.key) (config.fileAt location))
    match config.paths.skillConfigWriteLocation segments with
    | none => some config
    | some (.skill dir remaining) =>
      if (config.skillConfigs.lookup dir).isNone then some config
      else some (removed (.skill dir remaining))
    | some (.global remaining) => some (removed (.global remaining))

/-- `remove_path_alias` and `remove_file_alias`. -/
def removeNamedAlias (domain : AliasDomain) (name : Text) :
    Option (AliasConfig Content) :=
  match splitSkillAliasName name with
  | some (segments, aliasName) =>
    config.removeSkillAlias domain segments aliasName
  | none =>
    (removeGlobalAlias domain.key (String.ofList name)).map fun edit =>
      { config with writable := some (edit (config.writable.getD [])) }

end AliasConfig

end DeveloperDashboard.Skills
