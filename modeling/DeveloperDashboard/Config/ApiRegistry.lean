import DeveloperDashboard.Config.LoadGlobal

namespace DeveloperDashboard.Config

open Library

/-!
# The registry of API keys

`api_registry` merges the fragments of installed skills first and the layers of
the project on top.  A layer that defines a client settles it for everything
below, so no skill can change what an operator has set.
-/

/--
A character as the pattern of `_api_key_disabled_flag` compares it, ignoring
case; two characters beyond ASCII fold to letters of the pattern.
-/
def foldCase (char : Char) : List Char :=
  if char = 'ſ' then ['s']
  else if char = 'ﬀ' then ['f', 'f']
  else [char.toLower]

/-- The pattern `/\A(?:0|false|no|off)\z/i`. -/
def isFalseText (text : String) : Bool :=
  decide
    (String.ofList (text.toList.flatMap foldCase) ∈
      ["0", "false", "no", "off"])

/-- What a `disabled` field of an API entry says. -/
def disabledField : JsonValue → Bool
  | .null => false
  | .array _ => true
  | .hash _ => true
  | .boolean value => !isFalseText (if value then "1" else "0")
  | .number text => decide (text ≠ "") && !isFalseText text
  | .string text => decide (text ≠ "") && !isFalseText text

/-- `_api_key_disabled_flag`. -/
def apiKeyDisabledFlag (entry : ConfigHash) : Bool :=
  match entry.lookup "disabled" with
  | some value => disabledField value
  | none =>
    match entry.lookup "_disabled" with
    | some value => disabledField value
    | none => false

/-- The pattern `m{\A/ajax(?:/|\z)}`. -/
def isAjaxRoute (route : String) : Bool :=
  decide (route = "/ajax") || "/ajax/".toList.isPrefixOf route.toList

/-- One round of the loop of `_normalize_api_ajax_routes`. -/
def ajaxRouteRound (normalized : List String) (route : JsonValue) :
    List String :=
  match route.plainText with
  | none => normalized
  | some text =>
    let trimmed := Perl.trimString text
    if trimmed = "" then normalized
    else if !isAjaxRoute trimmed then normalized
    else if trimmed ∈ normalized then normalized
    else normalized ++ [trimmed]

/-- `_normalize_api_ajax_routes`. -/
def normalizeApiAjaxRoutes : Option JsonValue → List String
  | some (.array routes) => routes.foldl ajaxRouteRound []
  | _ => []

/-- What `_normalize_api_keys` keeps of the entry of a client. -/
def normalizeApiKey
    (preserveDisabled : Bool) (name : String) (entry : JsonValue) :
    Option JsonValue :=
  match entry with
  | .hash fields =>
    if name = "" then none
    else if apiKeyDisabledFlag fields then
      if preserveDisabled then
        some (.hash [("disabled", .number "1")])
      else none
    else
      let secret :=
        Perl.trimString
          (((Entries.lookup fields "secret").bind JsonValue.plainText).getD "")
      if secret = "" then none
      else
        some
          (.hash
            [("secret", .string secret), ("ajax", .array
                  ((normalizeApiAjaxRoutes
                    (Entries.lookup fields "ajax")).map .string))])
  | _ => none

/-- `_normalize_api_keys`. -/
def normalizeApiKeys (preserveDisabled : Bool) (keys : ConfigHash) :
    ConfigHash :=
  keys.filterMapValues (normalizeApiKey preserveDisabled)

/-- What a normalized entry of the right hash leaves under its name. -/
def keptApiKey : JsonValue → Option JsonValue
  | .hash fields =>
    if ((Entries.lookup fields "disabled").map JsonValue.truthy).getD
        false
    then none
    else some (.hash fields)
  | entry => some entry

/-- `_merge_api_key_hashes`. -/
def mergeApiKeyHashes (left right : ConfigHash) : ConfigHash :=
  let normalizedRight := normalizeApiKeys true right
  (normalizedRight.map Prod.fst).foldl
    (Entries.assign fun name =>
      (normalizedRight.lookup name).bind keptApiKey)
    (normalizeApiKeys true left)

/-- `api_registry`, with the fragments of `_skill_api_fragments`. -/
def apiRegistry (fragments : List ConfigHash) (files : ConfigFiles) :
    ConfigHash :=
  normalizeApiKeys false
    (files.layers.foldl mergeApiKeyHashes
      (fragments.foldl mergeApiKeyHashes []))

/-- A layer has a well-formed entry or a tombstone for a client. -/
def DefinesClient (client : String) (layer : ConfigHash) : Prop :=
  ∃ entry, layer.lookup client = some entry ∧
    (normalizeApiKey true client entry).isSome

theorem lookup_normalizeApiKeys
    (preserveDisabled : Bool) (keys : ConfigHash) (client : String) :
    (normalizeApiKeys preserveDisabled keys).lookup client =
      (keys.lookup client).bind
        (normalizeApiKey preserveDisabled client) :=
  Entries.lookup_filterMapValues _ keys client

variable {client : String}

theorem lookup_mergeApiKeyHashes_of_defines {layer : ConfigHash}
    (defines : DefinesClient client layer) (left : ConfigHash) :
    (mergeApiKeyHashes left layer).lookup client =
      ((normalizeApiKeys true layer).lookup client).bind keptApiKey := by
  obtain ⟨entry, found, kept⟩ := defines
  have normalized :
      (normalizeApiKeys true layer).lookup client ≠ none := by
    rw [lookup_normalizeApiKeys, found, Option.bind_some]
    exact Option.isSome_iff_ne_none.mp kept
  have named :
      client ∈ (normalizeApiKeys true layer).map Prod.fst := by
    by_contra absent
    exact normalized ((Entries.lookup_eq_none_iff _ client).mpr absent)
  rw [mergeApiKeyHashes, Entries.lookup_foldl_assign, if_pos named]

theorem lookup_mergeApiKeyHashes_congr {left other : ConfigHash}
    (same : left.lookup client = other.lookup client) (layer : ConfigHash) :
    (mergeApiKeyHashes left layer).lookup client =
      (mergeApiKeyHashes other layer).lookup client := by
  simp only [mergeApiKeyHashes, Entries.lookup_foldl_assign,
    lookup_normalizeApiKeys, same]

theorem lookup_foldl_merge_congr (layers : List ConfigHash)
    {left other : ConfigHash}
    (same : left.lookup client = other.lookup client) :
    (layers.foldl mergeApiKeyHashes left).lookup client =
      (layers.foldl mergeApiKeyHashes other).lookup client := by
  induction layers generalizing left other with
  | nil => exact same
  | cons layer rest ih =>
    exact ih (lookup_mergeApiKeyHashes_congr same layer)

theorem lookup_foldl_merge_of_defines {layers : List ConfigHash}
    (defined : ∃ layer ∈ layers, DefinesClient client layer)
    (left other : ConfigHash) :
    (layers.foldl mergeApiKeyHashes left).lookup client =
      (layers.foldl mergeApiKeyHashes other).lookup client := by
  induction layers generalizing left other with
  | nil => simp at defined
  | cons layer rest ih =>
    obtain ⟨definer, isIn, defines⟩ := defined
    rw [List.foldl_cons, List.foldl_cons]
    rcases List.mem_cons.mp isIn with rfl | later
    · apply lookup_foldl_merge_congr
      rw [lookup_mergeApiKeyHashes_of_defines defines,
        lookup_mergeApiKeyHashes_of_defines defines]
    · exact ih ⟨definer, later, defines⟩ _ _

/--
The registry has the same entry for a client that a layer of the project
defines, whatever the installed skills contribute.
-/
theorem apiRegistry_independent_of_skills
    (skills otherSkills : List ConfigHash) (files : ConfigFiles)
    (client : String)
    (defined : ∃ layer, some layer ∈ files ∧ DefinesClient client layer) :
    (apiRegistry skills files).lookup client =
      (apiRegistry otherSkills files).lookup client := by
  obtain ⟨layer, isFile, defines⟩ := defined
  have isLayer : layer ∈ files.layers := by
    refine List.mem_filterMap.mpr ⟨some layer, ?_, rfl⟩
    exact List.mem_reverse.mpr isFile
  unfold apiRegistry
  rw [lookup_normalizeApiKeys, lookup_normalizeApiKeys,
    lookup_foldl_merge_of_defines ⟨layer, isLayer, defines⟩]

def replacingSkill : ConfigHash :=
  [("ci", .hash [("secret", .string "other")])]

def operatorLayer : ConfigHash :=
  [("ci", .hash
      [("secret", .string "s3cret"), ("ajax", .array [.string "/ajax/x"])])]

/-- A skill that names an operator's client changes nothing. -/
theorem apiRegistry_keeps_operator_key :
    (apiRegistry [replacingSkill] [some operatorLayer]).lookup "ci" =
      (apiRegistry [] [some operatorLayer]).lookup "ci" :=
  apiRegistry_independent_of_skills [replacingSkill] []
    [some operatorLayer] "ci"
    ⟨operatorLayer, List.mem_singleton.mpr rfl, _, rfl, by decide⟩

end DeveloperDashboard.Config
