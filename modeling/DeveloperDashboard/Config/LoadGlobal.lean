import DeveloperDashboard.Config.MergeHashes

namespace DeveloperDashboard.Config

open Library

/-!
# Loading the layered configuration

`load_global` adopts the first file as it is, collapses named arrays only where
no merge has done so, and `merged` skips an empty repository layer.  The result
is still the plain fold of `_merge_hashes` over all layers.
-/

/--
What is at the paths of `_global_config_files`, the deepest layer first; a path
without a file has nothing.
-/
abbrev ConfigFiles := List (Option ConfigHash)

def ConfigFiles.layers (files : ConfigFiles) : List ConfigHash :=
  files.reverse.filterMap id

/-- The variables `$merged` and `$has_global_config` of `load_global`. -/
structure LoadState where
  merged : ConfigHash
  hasGlobalConfig : Bool

/-- One round of the loop of `load_global` over the files. -/
def loadRound (state : LoadState) : Option ConfigHash → LoadState
  | none => state
  | some config =>
    if state.hasGlobalConfig then
      { state with merged := mergeHashes state.merged config }
    else
      { merged := config, hasGlobalConfig := true }

/-- `load_global`, with the fragments of `_skill_config_fragments`. -/
def loadGlobal (files : ConfigFiles) (fragments : List ConfigHash) :
    ConfigHash :=
  let state :=
    files.reverse.foldl loadRound { merged := [], hasGlobalConfig := false }
  let merged := fragments.foldl mergeHashes state.merged
  if state.hasGlobalConfig && fragments.isEmpty then
    merged.mapValues (collapseField mergeHashes)
  else merged

/-- `merged`, with the hash of `load_repo`. -/
def merged (files : ConfigFiles) (fragments : List ConfigHash)
    (repo : ConfigHash) :
    ConfigHash :=
  let global := loadGlobal files fragments
  if repo.isEmpty then global else mergeHashes global repo

/-- The fold of `_merge_hashes` over layers. -/
def layered (layers : List ConfigHash) : ConfigHash :=
  layers.foldl mergeHashes []

/--
The members of a named array in the order in which the layers list them.  A
value that is no array drops what was listed before.
-/
def listed (domain : String) (layers : List ConfigHash) : List JsonValue :=
  layers.foldl
    (fun members layer =>
      match layer.lookup domain with
      | none => members
      | some (.array items) => members ++ items
      | some _ => [])
    []

def LastField (identityKey : String) (members : List JsonValue)
    (identity field : String) (value : JsonValue) : Prop :=
  ∃ before later after,
    members = before ++ .hash later :: after ∧
      JsonValue.identity identityKey (.hash later) = some identity ∧
        Entries.lookup later field = some value ∧
          ∀ entries,
            .hash entries ∈ after →
              JsonValue.identity identityKey (.hash entries) =
                  some identity →
                Entries.lookup entries field = none

/--
The named arrays of a configuration: each identity once, at the position of its
first member, with the later members merged into it in order.
-/
structure NamedOnce (layers : List ConfigHash) (result : ConfigHash) :
    Prop where
  distinct : ∀ domain identityKey items,
    namedIdentity domain = some identityKey →
      result.lookup domain = some (.array items) →
        (items.filterMap (JsonValue.identity identityKey)).Nodup
  inOrder : ∀ domain identityKey items,
    namedIdentity domain = some identityKey →
      result.lookup domain = some (.array items) →
        items = gathered identityKey (listed domain layers)
  overridden : ∀ domain identityKey items identity field value,
    namedIdentity domain = some identityKey →
      result.lookup domain = some (.array items) →
        LastField identityKey (listed domain layers) identity field value →
          value.IsScalar →
            ∃ entries,
              .hash entries ∈ items ∧
                JsonValue.identity identityKey (.hash entries) =
                    some identity ∧
                  Entries.lookup entries field = some value

theorem foldl_loadRound_of_adopted
    (files : List (Option ConfigHash)) (merged : ConfigHash) :
    files.foldl loadRound { merged := merged, hasGlobalConfig := true } =
      { merged := (files.filterMap id).foldl mergeHashes merged
        hasGlobalConfig := true } := by
  induction files generalizing merged with
  | nil => rfl
  | cons file rest ih =>
    cases file with
    | none => exact ih merged
    | some config => exact ih (mergeHashes merged config)

theorem foldl_loadRound (files : List (Option ConfigHash)) :
    files.foldl loadRound { merged := [], hasGlobalConfig := false } =
      match files.filterMap id with
      | [] => { merged := [], hasGlobalConfig := false }
      | first :: rest =>
        { merged := rest.foldl mergeHashes first
          hasGlobalConfig := true } := by
  induction files with
  | nil => rfl
  | cons file rest ih =>
    cases file with
    | none => exact ih
    | some config => exact foldl_loadRound_of_adopted rest config

theorem collapsed_foldl_mergeHashes
    (layers : List ConfigHash) (first : ConfigHash) :
    collapsed (layers.foldl mergeHashes first) =
      layers.foldl mergeHashes (collapsed first) := by
  induction layers generalizing first with
  | nil => rfl
  | cons layer rest ih =>
    rw [List.foldl_cons, List.foldl_cons, ih,
      collapsed_mergeHashes, mergeHashes_collapsed_left]

theorem collapsed_layered (layers : List ConfigHash) :
    collapsed (layered layers) = layered layers := by
  unfold layered
  rw [collapsed_foldl_mergeHashes]
  rfl

theorem loadGlobal_eq_layered
    (files : ConfigFiles) (fragments : List ConfigHash) :
    loadGlobal files fragments = layered (files.layers ++ fragments) := by
  unfold loadGlobal layered
  rw [foldl_loadRound, List.foldl_append]
  have sameLayers : files.reverse.filterMap id = files.layers := rfl
  rw [sameLayers]
  cases files.layers with
  | nil => rfl
  | cons first rest =>
    rw [List.foldl_cons, mergeHashes_nil_left, ← collapsed_foldl_mergeHashes]
    cases fragments with
    | nil => rfl
    | cons fragment others =>
      dsimp only [List.foldl_cons]
      rw [mergeHashes_collapsed_left]
      rfl

theorem merged_eq_layered (files : ConfigFiles) (fragments : List ConfigHash)
    (repo : ConfigHash) :
    merged files fragments repo =
      layered (files.layers ++ fragments ++ [repo]) := by
  have folded :
      layered (files.layers ++ fragments ++ [repo]) =
        mergeHashes (layered (files.layers ++ fragments)) repo := by
    unfold layered
    rw [List.foldl_append]
    rfl
  unfold merged
  rw [folded, loadGlobal_eq_layered]
  cases repo with
  | nil =>
    rw [mergeHashes_nil_right, collapsed_layered]
    rfl
  | cons entry rest => rfl

def IsListed (identityKey : String) (members : List JsonValue) :
    Option JsonValue → Prop
  | some (.array items) => items = gathered identityKey members
  | _ => members = []

theorem listed_concat
    (domain : String) (layers : List ConfigHash) (layer : ConfigHash) :
    listed domain (layers ++ [layer]) =
      match layer.lookup domain with
      | none => listed domain layers
      | some (.array items) => listed domain layers ++ items
      | some _ => [] := by
  unfold listed
  rw [List.foldl_append]
  rfl

variable {identityKey : String} {members : List JsonValue}

theorem isListed_collapseField {domain : String}
    (named : namedIdentity domain = some identityKey)
    {value : Option JsonValue}
    (isListed : IsListed identityKey members value) :
    IsListed identityKey members
      (value.map (collapseField mergeHashes domain)) := by
  cases value with
  | none => exact isListed
  | some value =>
    cases value with
    | array items =>
      obtain rfl : items = gathered identityKey members := isListed
      rw [Option.map_some, collapseField_of_named named, gathered_gathered]
      rfl
    | _ =>
      rw [Option.map_some]
      simp only [collapseField, named]
      exact isListed

theorem isListed_mergeField {domain : String}
    (named : namedIdentity domain = some identityKey)
    {previous : Option JsonValue}
    (isListed : IsListed identityKey members previous)
    (items : List JsonValue) :
    IsListed identityKey (members ++ items)
      (some
        (collapseField mergeHashes domain
          (mergeField mergeHashes domain previous (.array items)))) := by
  have starting (nothing : members = []) :
      IsListed identityKey (members ++ items)
        (some (collapseField mergeHashes domain (.array items))) := by
    rw [nothing, List.nil_append, collapseField_of_named named]
    rfl
  cases previous with
  | none => exact starting isListed
  | some value =>
    cases value with
    | array left =>
      obtain rfl : left = gathered identityKey members := isListed
      rw [mergeField_of_named named, gathered_gathered_append,
        collapseField_of_named named, gathered_gathered]
      rfl
    | _ => exact starting isListed

variable {value : JsonValue}

theorem isListed_mergeField_of_other {domain : String}
    (named : namedIdentity domain = some identityKey)
    (previous : Option JsonValue) (other : ∀ items, value ≠ .array items) :
    IsListed identityKey []
      (some
        (collapseField mergeHashes domain
          (mergeField mergeHashes domain previous value))) := by
  have ofScalar (scalar : value.IsScalar) :
      IsListed identityKey []
        (some
          (collapseField mergeHashes domain
            (mergeField mergeHashes domain previous value))) := by
    rw [mergeField_of_scalar scalar, collapseField_of_scalar scalar]
    cases value with
    | array items => cases scalar
    | _ => rfl
  cases value with
  | array items => exact absurd rfl (other items)
  | hash entries =>
    cases previous with
    | none => simp only [mergeField, collapseField, named, IsListed]
    | some value =>
      cases value <;>
        simp only [mergeField, collapseField, named, IsListed]
  | _ => exact ofScalar trivial

/-- A named array of the folded configuration gathers what is listed. -/
theorem isListed_layered {domain : String}
    (named : namedIdentity domain = some identityKey)
    (layers : List ConfigHash) :
    IsListed identityKey (listed domain layers)
      ((layered layers).lookup domain) := by
  induction layers using List.reverseRecOn with
  | nil => rfl
  | append_singleton layers layer ih =>
    have oneMore :
        layered (layers ++ [layer]) =
          mergeHashes (layered layers) layer := by
      unfold layered
      rw [List.foldl_append]
      rfl
    rw [oneMore, lookup_mergeHashes, listed_concat]
    cases layer.lookup domain with
    | none => exact isListed_collapseField named ih
    | some value =>
      cases value with
      | array items =>
        exact isListed_mergeField named ih items
      | _ =>
        refine isListed_mergeField_of_other named _ ?_
        rintro items ⟨⟩

theorem foldl_merge_keeps_identity {identity : String}
    {rest : List JsonValue}
    (sameIdentity : ∀ item ∈ rest, item.identity identityKey = some identity)
    {first : JsonValue}
    (firstNamed : first.identity identityKey = some identity) :
    (rest.foldl (mergeNamedHashItem mergeHashes) first).identity
      identityKey = some identity := by
  induction rest generalizing first with
  | nil => exact firstNamed
  | cons item rest ih =>
    have itemNamed := sameIdentity item List.mem_cons_self
    exact ih
      (fun other isIn => sameIdentity other (List.mem_cons_of_mem _ isIn))
      (keepsIdentity identityKey _ _ _ firstNamed itemNamed)

/-- Later members without a field leave the field alone. -/
theorem foldl_merge_keeps_field {identity field : String}
    (scalar : value.IsScalar) {rest : List JsonValue}
    (sameIdentity : ∀ item ∈ rest, item.identity identityKey = some identity)
    (without : ∀ entries, .hash entries ∈ rest →
      Entries.lookup entries field = none)
    {first : ConfigHash}
    (firstNamed :
      JsonValue.identity identityKey (.hash first) = some identity)
    (found : first.lookup field = some value) :
    ∃ entries,
      rest.foldl (mergeNamedHashItem mergeHashes) (.hash first) =
          .hash entries ∧
        JsonValue.identity identityKey (.hash entries) = some identity ∧
          Entries.lookup entries field = some value := by
  induction rest generalizing first with
  | nil => exact ⟨first, rfl, firstNamed, found⟩
  | cons item rest ih =>
    have itemNamed := sameIdentity item List.mem_cons_self
    obtain ⟨later, _, rfl, -, -⟩ :=
      JsonValue.eq_hash_of_identity itemNamed
    refine ih
      (fun other isIn => sameIdentity other (List.mem_cons_of_mem _ isIn))
      (fun entries isIn => without entries (List.mem_cons_of_mem _ isIn))
      (keepsIdentity identityKey _ _ _ firstNamed itemNamed) ?_
    rw [lookup_mergeHashes, without later List.mem_cons_self, found]
    simp only [Option.map_none, Option.none_or, Option.map_some,
      collapseField_of_scalar scalar]

theorem lastField_gathered {identity field : String}
    (isLast : LastField identityKey members identity field value)
    (scalar : value.IsScalar) :
    ∃ entries,
      .hash entries ∈ gathered identityKey members ∧
        JsonValue.identity identityKey (.hash entries) = some identity ∧
          Entries.lookup entries field = some value := by
  obtain ⟨before, later, after, rfl, laterNamed, found, without⟩ := isLast
  have selectedNamed (list : List JsonValue) :
      ∀ item ∈ NamedList.withName (JsonValue.identity identityKey) identity
          list,
        item ∈ list ∧ item.identity identityKey = some identity := by
    intro item isIn
    obtain ⟨isThere, named⟩ := List.mem_filter.mp isIn
    exact ⟨isThere, by simpa using named⟩
  have afterNamed := selectedNamed after
  have keeps {first : ConfigHash}
      (firstNamed :
        JsonValue.identity identityKey (.hash first) = some identity)
      (firstFound : first.lookup field = some value) :=
    foldl_merge_keeps_field scalar
      (fun item isIn => (afterNamed item isIn).2)
      (fun entries isIn =>
        without entries (afterNamed _ isIn).1 (afterNamed _ isIn).2)
      firstNamed firstFound
  have selected :
      NamedList.withName (JsonValue.identity identityKey) identity
          (before ++ .hash later :: after) =
        NamedList.withName (JsonValue.identity identityKey) identity
            before ++
          .hash later ::
            NamedList.withName (JsonValue.identity identityKey) identity
              after := by
    rw [NamedList.withName_append, NamedList.withName_cons_of_eq laterNamed]
  cases earlier :
      NamedList.withName (JsonValue.identity identityKey) identity
        before with
  | nil =>
    rw [earlier, List.nil_append] at selected
    obtain ⟨entries, folded, named, kept⟩ := keeps laterNamed found
    have isIn :=
      @NamedList.foldl_mem_gather _ _ _ _
        (mergeNamedHashItem mergeHashes) _ _ _ _ selected
    rw [folded] at isIn
    exact ⟨entries, isIn, named, kept⟩
  | cons first more =>
    rw [earlier, List.cons_append] at selected
    have isIn :=
      @NamedList.foldl_mem_gather _ _ _ _
        (mergeNamedHashItem mergeHashes) _ _ _ _ selected
    rw [List.foldl_append, List.foldl_cons] at isIn
    have earlierNamed := selectedNamed before
    rw [earlier] at earlierNamed
    have mergedNamed :=
      foldl_merge_keeps_identity
        (fun item isMore =>
          (earlierNamed item (List.mem_cons_of_mem _ isMore)).2)
        (earlierNamed first List.mem_cons_self).2
    obtain ⟨left, _, isHash, -, -⟩ :=
      JsonValue.eq_hash_of_identity mergedNamed
    rw [isHash] at isIn mergedNamed
    obtain ⟨entries, folded, named, kept⟩ :=
      keeps
        (keepsIdentity identityKey _ _ _ mergedNamed laterNamed)
        (lookup_mergeHashes_of_scalar found scalar)
    rw [mergeNamedHashItem, folded] at isIn
    exact ⟨entries, isIn, named, kept⟩

theorem namedOnce_layered (layers : List ConfigHash) :
    NamedOnce layers (layered layers) := by
  have gatheredOf {domain identityKey : String} {items : List JsonValue}
      (named : namedIdentity domain = some identityKey)
      (found : (layered layers).lookup domain = some (.array items)) :
      items = gathered identityKey (listed domain layers) := by
    have isListed := isListed_layered named layers
    rw [found] at isListed
    exact isListed
  constructor
  · intro domain identityKey items named found
    rw [gatheredOf named found]
    exact NamedList.distinct_gather (keepsIdentity identityKey) _
  · intro domain identityKey items named found
    exact gatheredOf named found
  · intro domain identityKey items identity field value named found isLast
      scalar
    rw [gatheredOf named found]
    exact lastField_gathered isLast scalar

/--
Loading the configuration is the plain fold of `_merge_hashes` over all layers,
in which the named arrays have each identity once.
-/
theorem load_eq_layered (files : ConfigFiles) (fragments : List ConfigHash)
    (repo : ConfigHash) :
    (loadGlobal files fragments =
        (files.layers ++ fragments).foldl mergeHashes [] ∧
      NamedOnce (files.layers ++ fragments) (loadGlobal files fragments)) ∧
    (merged files fragments repo =
        (files.layers ++ fragments ++ [repo]).foldl mergeHashes [] ∧
      NamedOnce (files.layers ++ fragments ++ [repo])
        (merged files fragments repo)) := by
  refine ⟨⟨loadGlobal_eq_layered files fragments, ?_⟩,
    merged_eq_layered files fragments repo, ?_⟩
  · rw [loadGlobal_eq_layered]
    exact namedOnce_layered _
  · rw [merged_eq_layered]
    exact namedOnce_layered _

end DeveloperDashboard.Config
