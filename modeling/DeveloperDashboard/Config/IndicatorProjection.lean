import DeveloperDashboard.Config.CollectorJobs

namespace DeveloperDashboard.Config

open Library

/-!
# Indicators in the order of the collectors

Both resolvers gather the same declarations by name, but only the collector
list starts with the built-in job.  A declaration named `housekeeper` is merged
into that job there and keeps its own position in the indicator list, so the
lists agree unless an indicator that is shown stands ahead of a shown
`housekeeper`.
-/

def JsonValue.outline : JsonValue → JsonValue
  | .array _ => .array []
  | .hash _ => .hash []
  | value => value

def JsonValue.isHash : JsonValue → Bool
  | .hash _ => true
  | _ => false

def declaredField (key : String) : JsonValue → Option JsonValue
  | .hash job => Entries.lookup job key
  | _ => none

/-- What the last of some declarations that has a field says of it. -/
def lastDeclared (key : String) (declarations : List JsonValue) :
    Option JsonValue :=
  declarations.foldl
    (fun found declaration => (declaredField key declaration).or found) none

def sameNamed (skillJobs : List JsonValue) (declaration : JsonValue) :
    List JsonValue :=
  match declaration.identity "name" with
  | none => []
  | some name =>
    NamedList.withName (JsonValue.identity "name") name skillJobs

/-- Some declarations of one name that make an indicator. -/
structure IsShown
    (filter : Option String) (first : JsonValue)
    (later : List JsonValue) : Prop where
  wanted : ∀ names, wantedNames filter = some names →
    isWanted names first = true
  named :
    (lastDeclared "name" (first :: later)).any JsonValue.isFilled = true
  hasIndicator :
    (lastDeclared "indicator" (first :: later)).any JsonValue.isHash = true
  enabled :
    (lastDeclared "disable" (first :: later)).any collectorDisableFlag =
      false

/-- Nothing that is shown is declared ahead of a shown `housekeeper`. -/
def HousekeeperLeads (declared skillJobs : List JsonValue)
    (filter : Option String) : Prop :=
  ∀ front housekeeper back,
    declared = front ++ housekeeper :: back →
      housekeeper.identity "name" = some "housekeeper" →
        IsShown filter housekeeper [] →
          ∀ job ∈ front, ¬ IsShown filter job (sameNamed skillJobs job)

def shownPair (filter : Option String) (job : JsonValue) :
    Option (JsonValue × JsonValue) :=
  match wantedNames filter with
  | none => projectIndicator job
  | some wanted =>
    if isWanted wanted job then projectIndicator job else none

variable {job : JsonValue}

theorem hasDefinedName_of_isWanted {wanted : List String}
    (isIn : isWanted wanted job = true) :
    hasDefinedName job = true := by
  unfold isWanted at isIn
  cases identified : job.identity "name" with
  | none =>
    rw [identified] at isIn
    cases isIn
  | some name =>
    obtain ⟨entries, value, rfl, found, text⟩ :=
      JsonValue.eq_hash_of_identity identified
    rw [hasDefinedName, jobField, found, Option.getD_some]
    cases value with
    | null => cases text
    | _ => rfl

theorem checkedIndicators_eq (filter : Option String)
    (jobs : List JsonValue) :
    checkedIndicators filter jobs = checkedCollectors filter jobs := by
  unfold checkedIndicators checkedCollectors
  cases wantedNames filter with
  | none => rfl
  | some wanted =>
    apply List.filter_congr
    intro job _
    cases isIn : isWanted wanted job with
    | false => rw [Bool.and_false]
    | true => rw [hasDefinedName_of_isWanted isIn, Bool.and_true]

theorem filterMap_checkedCollectors (filter : Option String)
    (jobs : List JsonValue) :
    (checkedCollectors filter jobs).filterMap projectIndicator =
      jobs.filterMap (shownPair filter) := by
  have sameFunction :
      shownPair filter =
        match wantedNames filter with
        | none => projectIndicator
        | some wanted => fun job =>
          if isWanted wanted job then projectIndicator job else none := by
    funext job
    unfold shownPair
    cases wantedNames filter <;> rfl
  rw [sameFunction]
  unfold checkedCollectors
  cases wantedNames filter with
  | none => rfl
  | some wanted =>
    dsimp only
    rw [List.filterMap_filter]

theorem enabledIndicator_normalizeCollectorJob
    {referenceText : JsonValue → String} {normalized : JsonValue}
    (succeed : normalizeCollectorJob referenceText job = .ok normalized) :
    enabledIndicator normalized = projectIndicator job := by
  have ofFields (fields : ConfigHash) (mode multiple : JsonValue) :
      enabledIndicator (normalizedJob fields mode multiple) =
        projectIndicator (.hash fields) := by
    have kept (key : String) (isDisable : "disable" ≠ key)
        (isMode : "mode" ≠ key) (isMultiple : "multiple" ≠ key)
        (flag : JsonValue) :
        jobField
            (((fields.store "disable" flag).store "mode" mode).store
              "multiple" multiple) key =
          jobField fields key := by
      unfold jobField
      rw [Entries.lookup_store_of_ne _ isMultiple,
        Entries.lookup_store_of_ne _ isMode,
        Entries.lookup_store_of_ne _ isDisable]
    have flagged (flag : JsonValue) :
        jobField
            (((fields.store "disable" flag).store "mode" mode).store
              "multiple" multiple) "disable" =
          flag := by
      unfold jobField
      rw [Entries.lookup_store_of_ne _ (by decide),
        Entries.lookup_store_of_ne _ (by decide), Entries.lookup_store_self,
        Option.getD_some]
    simp only [normalizedJob, enabledIndicator, projectIndicator, flagged,
      kept "indicator" (by decide) (by decide) (by decide),
      kept "name" (by decide) (by decide) (by decide)]
    cases collectorDisableFlag (jobField fields "disable") <;> rfl
  cases job with
  | hash fields =>
    unfold normalizeCollectorJob at succeed
    dsimp only at succeed
    generalize
      (if (jobField fields "mode").isFilled = true then
          jobField fields "mode"
        else JsonValue.string "singleton") = mode at succeed
    split at succeed
    · obtain rfl := Except.ok.inj succeed
      exact ofFields _ _ _
    · split at succeed
      · split at succeed
        · obtain rfl := Except.ok.inj succeed
          exact ofFields _ _ _
        · cases succeed
      · cases succeed
  | _ =>
    obtain rfl := Except.ok.inj succeed
    rfl

theorem filterMap_enabledIndicator {referenceText : JsonValue → String}
    {configured jobs : List JsonValue}
    (succeed :
      configured.mapM (normalizeCollectorJob referenceText) = .ok jobs) :
    jobs.filterMap enabledIndicator =
      configured.filterMap projectIndicator := by
  induction configured generalizing jobs with
  | nil =>
    obtain rfl := Except.ok.inj succeed
    rfl
  | cons job rest ih =>
    rw [List.mapM_cons] at succeed
    cases first : normalizeCollectorJob referenceText job with
    | error reason =>
      rw [first] at succeed
      cases succeed
    | ok normalized =>
      cases others : rest.mapM (normalizeCollectorJob referenceText) with
      | error reason =>
        rw [first, others] at succeed
        cases succeed
      | ok later =>
        rw [first, others] at succeed
        obtain rfl := Except.ok.inj succeed
        rw [List.filterMap_cons, List.filterMap_cons,
          enabledIndicator_normalizeCollectorJob first,
          ih others]

variable {field : String}

section

variable {referenceText : JsonValue → String}

@[simp] theorem isFilled_outline (value : JsonValue) :
    value.outline.isFilled = value.isFilled := by
  cases value <;> rfl

@[simp] theorem isHash_outline (value : JsonValue) :
    value.outline.isHash = value.isHash := by
  cases value <;> rfl

@[simp] theorem collectorDisableFlag_outline (value : JsonValue) :
    collectorDisableFlag value.outline = collectorDisableFlag value := by
  cases value <;> rfl

theorem any_eq_of_outline
    {found other : Option JsonValue} {test : JsonValue → Bool}
    (respects : ∀ value, test value.outline = test value)
    (same : found.map JsonValue.outline = other.map JsonValue.outline) :
    found.any test = other.any test := by
  have throughOutline (value : Option JsonValue) :
      value.any test = (value.map JsonValue.outline).any test := by
    cases value with
    | none => rfl
    | some value => exact (respects value).symm
  rw [throughOutline found, same, ← throughOutline other]

theorem projectIndicator_isSome_iff (job : ConfigHash) :
    (projectIndicator (.hash job)).isSome = true ↔
      (job.lookup "name").any JsonValue.isFilled = true ∧
        (job.lookup "indicator").any JsonValue.isHash = true ∧
          (job.lookup "disable").any collectorDisableFlag = false := by
  have filled :
      (jobField job "name").isFilled =
        (job.lookup "name").any JsonValue.isFilled := by
    unfold jobField
    cases job.lookup "name" <;> rfl
  have disabled :
      collectorDisableFlag (jobField job "disable") =
        (job.lookup "disable").any collectorDisableFlag := by
    unfold jobField
    cases job.lookup "disable" <;> rfl
  rw [← filled, ← disabled]
  unfold projectIndicator
  dsimp only
  rw [show jobField job "indicator" =
    (job.lookup "indicator").getD .null from rfl]
  cases job.lookup "indicator" with
  | none => simp
  | some value =>
    cases value with
    | hash entries =>
      cases (jobField job "name").isFilled <;>
        cases collectorDisableFlag (jobField job "disable") <;>
          simp [JsonValue.isHash]
    | _ => simp [JsonValue.isHash]

theorem collapseField_of_unnamed (unnamed : namedIdentity field = none)
    (value : JsonValue) :
    collapseField mergeHashes field value = value := by
  unfold collapseField
  rw [unnamed]

theorem outline_mergeField (unnamed : namedIdentity field = none)
    (previous : Option JsonValue) (value : JsonValue) :
    (mergeField mergeHashes field previous value).outline =
      value.outline := by
  unfold mergeField
  split
  · rfl
  · rw [unnamed]
  · rfl

theorem outline_lookup_mergeHashes (unnamed : namedIdentity field = none)
    (left right : ConfigHash) :
    ((mergeHashes left right).lookup field).map JsonValue.outline =
      ((right.lookup field).or (left.lookup field)).map
        JsonValue.outline := by
  have unchanged :
      collapseField mergeHashes field = (id : JsonValue → JsonValue) :=
    funext (collapseField_of_unnamed unnamed)
  rw [lookup_mergeHashes, unchanged, Option.map_id, id]
  cases right.lookup field with
  | none => rfl
  | some value =>
    simp only [Option.map_some, Option.some_or, outline_mergeField unnamed]

theorem outline_foldl_or (field : String) (later : List JsonValue)
    {found other : Option JsonValue}
    (same : found.map JsonValue.outline = other.map JsonValue.outline) :
    (later.foldl
        (fun found declaration =>
          (declaredField field declaration).or found) found).map
          JsonValue.outline =
      (later.foldl
        (fun found declaration =>
          (declaredField field declaration).or found) other).map
          JsonValue.outline := by
  induction later generalizing found other with
  | nil => exact same
  | cons declaration rest ih =>
    apply ih
    dsimp only
    cases declaredField field declaration with
    | none => exact same
    | some value => rfl

theorem exists_foldl_merge {name : String} {later : List JsonValue}
    (named : ∀ job ∈ later, job.identity "name" = some name)
    (first : ConfigHash) :
    ∃ job : ConfigHash,
      later.foldl (mergeNamedHashItem mergeHashes) (.hash first) =
          .hash job ∧
        ∀ field, namedIdentity field = none →
          (job.lookup field).map JsonValue.outline =
            (lastDeclared field (.hash first :: later)).map
              JsonValue.outline := by
  induction later generalizing first with
  | nil =>
    refine ⟨first, rfl, fun field _ => ?_⟩
    rw [lastDeclared, List.foldl_cons, List.foldl_nil, Option.or_none]
    rfl
  | cons declaration rest ih =>
    obtain ⟨entries, value, rfl, -, -⟩ :=
      JsonValue.eq_hash_of_identity (named declaration List.mem_cons_self)
    obtain ⟨job, merged, outlined⟩ :=
      ih
        (fun other isIn => named other (List.mem_cons_of_mem _ isIn))
        (mergeHashes first entries)
    refine ⟨job, merged, fun field unnamed => ?_⟩
    rw [outlined field unnamed]
    unfold lastDeclared
    rw [List.foldl_cons, List.foldl_cons, List.foldl_cons]
    apply outline_foldl_or
    rw [Option.or_none, Option.or_none]
    exact outline_lookup_mergeHashes unnamed first entries

theorem taken_eq_foldl (skillJobs : List JsonValue) (job : JsonValue) :
    NamedList.taken (JsonValue.identity "name")
        (mergeNamedHashItem mergeHashes) skillJobs job =
      (sameNamed skillJobs job).foldl (mergeNamedHashItem mergeHashes)
        job := by
  unfold NamedList.taken sameNamed
  cases job.identity "name" <;> rfl

theorem identity_of_mem_sameNamed
    {skillJobs : List JsonValue} {declaration : JsonValue}
    (isIn : job ∈ sameNamed skillJobs declaration) :
    job.identity "name" = declaration.identity "name" := by
  unfold sameNamed at isIn
  cases named : declaration.identity "name" with
  | none =>
    rw [named] at isIn
    cases isIn
  | some name =>
    rw [named] at isIn
    exact of_decide_eq_true (List.mem_filter.mp isIn).2

theorem identity_taken (skillJobs : List JsonValue) (job : JsonValue) :
    (NamedList.taken (JsonValue.identity "name")
        (mergeNamedHashItem mergeHashes) skillJobs job).identity "name" =
      job.identity "name" := by
  rw [taken_eq_foldl]
  cases named : job.identity "name" with
  | none =>
    have alone : sameNamed skillJobs job = [] := by
      rw [sameNamed, named]
    rw [alone]
    exact named
  | some name =>
    exact foldl_merge_keeps_identity
      (fun later isIn => (identity_of_mem_sameNamed isIn).trans named)
      named

theorem shownPair_taken_isSome_iff
    (filter : Option String) (skillJobs : List JsonValue)
    (declaration : JsonValue) :
    (shownPair filter
        (NamedList.taken (JsonValue.identity "name")
          (mergeNamedHashItem mergeHashes) skillJobs
            declaration)).isSome = true ↔
      IsShown filter declaration (sameNamed skillJobs declaration) := by
  have sameWanted (names : List String) :
      isWanted names
          (NamedList.taken (JsonValue.identity "name")
            (mergeNamedHashItem mergeHashes) skillJobs declaration) =
        isWanted names declaration := by
    unfold isWanted
    rw [identity_taken]
  have filtered :
      (shownPair filter
          (NamedList.taken (JsonValue.identity "name")
            (mergeNamedHashItem mergeHashes) skillJobs
              declaration)).isSome = true ↔
        (∀ names, wantedNames filter = some names →
          isWanted names declaration = true) ∧
        (projectIndicator
          (NamedList.taken (JsonValue.identity "name")
            (mergeNamedHashItem mergeHashes) skillJobs
              declaration)).isSome = true := by
    unfold shownPair
    cases wantedNames filter with
    | none => simp
    | some names =>
      dsimp only
      rw [sameWanted]
      cases wanted : isWanted names declaration with
      | false => simp [wanted]
      | true => simp [wanted]
  rw [filtered, taken_eq_foldl]
  cases declaration with
  | hash fields =>
    have named :
        ∀ later ∈ sameNamed skillJobs (.hash fields),
          later.identity "name" =
            some (((JsonValue.hash fields).identity "name").getD "") := by
      intro later isIn
      rw [identity_of_mem_sameNamed isIn]
      cases named : (JsonValue.hash fields).identity "name" with
      | none =>
        rw [sameNamed, named] at isIn
        cases isIn
      | some name => rfl
    obtain ⟨job, merged, outlined⟩ := exists_foldl_merge named fields
    rw [merged, projectIndicator_isSome_iff,
      any_eq_of_outline isFilled_outline (outlined "name" rfl),
      any_eq_of_outline isHash_outline (outlined "indicator" rfl),
      any_eq_of_outline collectorDisableFlag_outline
        (outlined "disable" rfl)]
    constructor
    · rintro ⟨wanted, named, hasIndicator, enabled⟩
      exact ⟨wanted, named, hasIndicator, enabled⟩
    · rintro ⟨wanted, named, hasIndicator, enabled⟩
      exact ⟨wanted, named, hasIndicator, enabled⟩
  | _ =>
    constructor
    · rintro ⟨-, shown⟩
      cases shown
    · rintro ⟨-, named, -, -⟩
      cases named

theorem dot_mem_qualifiedName (skillName name : String) :
    '.' ∈ (qualifiedName skillName name).toList := by
  unfold qualifiedName
  split
  · next front =>
      have isPrefix := List.isPrefixOf_iff_prefix.mp front
      exact isPrefix.subset (List.mem_append_right _ List.mem_cons_self)
  · rw [String.toList_append, String.toList_append]
    exact List.mem_append_left _
      (List.mem_append_right _ List.mem_cons_self)

/-- No job of a skill is named `housekeeper`. -/
theorem not_housekeeper_of_mem_skillCollectors {entries : List SkillConfig}
    (isIn : job ∈ skillCollectors referenceText entries) :
    job.identity "name" ≠ some "housekeeper" := by
  obtain ⟨entry, -, isJob⟩ := List.mem_flatMap.mp isIn
  obtain ⟨declared, -, pushed⟩ := List.mem_filterMap.mp isJob
  cases declared with
  | hash fields =>
    rw [skillJob?] at pushed
    split at pushed
    · obtain rfl := Option.some.inj pushed
      intro named
      have found :
          Entries.lookup (skillJob referenceText entry fields) "name" =
            some (.string (qualifiedName entry.skillName
              (valueText referenceText (jobField fields "name")))) := by
        unfold skillJob
        rw [Entries.lookup_store_of_ne _ (by decide),
          Entries.lookup_store_of_ne _ (by decide),
          Entries.lookup_store_self]
      have dot :=
        dot_mem_qualifiedName entry.skillName
          (valueText referenceText (jobField fields "name"))
      rw [JsonValue.identity, found, Option.bind_some,
        JsonValue.identityText] at named
      split at named
      · cases named
      · rw [Option.some.inj named] at dot
        exact absurd dot (by decide)
    · cases pushed
  | _ => cases pushed

theorem identity_housekeeperJob :
    (JsonValue.hash housekeeperJob).identity "name" =
      some "housekeeper" :=
  rfl

theorem MergedConfig.distinct_collectorArray (config : MergedConfig) :
    NamedList.Distinct (JsonValue.identity "name")
      (collectorArray config.config) := by
  unfold collectorArray
  split
  · next jobs found =>
      have collapses :
          (collapsed config.config).lookup "collectors" =
            some (.array jobs) := by
        rw [config.isCollapsed, found]
      unfold collapsed at collapses
      rw [Entries.lookup_mapValues, found, Option.map_some,
        collapseField_of_named
          (show namedIdentity "collectors" = some "name" from rfl)]
        at collapses
      have isGathered : gathered "name" jobs = jobs :=
        JsonValue.array.inj (Option.some.inj collapses)
      rw [← isGathered]
      exact NamedList.distinct_gather (keepsIdentity "name") jobs
  · unfold NamedList.Distinct
    exact List.nodup_nil

theorem withSkillJobs_gathered (jobs skillJobs : List JsonValue) :
    withSkillJobs (gathered "name" jobs) skillJobs =
      gathered "name" (jobs ++ skillJobs) := by
  unfold withSkillJobs
  cases skillJobs with
  | nil => rw [List.append_nil]; rfl
  | cons job rest =>
    rw [mergeNamedHashArray_eq, gathered_gathered_append]
    rfl

theorem configuredCollectorJobs_eq
    (config : ConfigHash) (entries : List SkillConfig)
    (filter : Option String) :
    configuredCollectorJobs referenceText config entries filter =
      checkedCollectors filter
        (gathered "name"
          (.hash housekeeperJob ::
            (collectorArray config ++
              skillCollectors referenceText entries))) := by
  have jobs :
      declaredCollectors config =
        gathered "name" (.hash housekeeperJob :: collectorArray config) := by
    have alone :
        NamedList.Distinct (JsonValue.identity "name") builtinCollectors :=
      List.nodup_singleton "housekeeper"
    unfold declaredCollectors collectorArray
    cases config.lookup "collectors" with
    | none => exact (NamedList.gather_of_distinct alone).symm
    | some value =>
      cases value with
      | array declared => exact mergeNamedHashArray_eq _ _ _
      | _ => exact (NamedList.gather_of_distinct alone).symm
  unfold configuredCollectorJobs
  rw [jobs, withSkillJobs_gathered, List.cons_append]

theorem configuredIndicatorJobs_eq
    (config : MergedConfig) (entries : List SkillConfig)
    (filter : Option String) :
    configuredIndicatorJobs referenceText config.config entries filter =
      checkedCollectors filter
        (gathered "name"
          (collectorArray config.config ++
            skillCollectors referenceText entries)) := by
  have jobs :
      declaredIndicators config.config = collectorArray config.config := by
    unfold declaredIndicators collectorArray
    cases config.config.lookup "collectors" with
    | none => rfl
    | some value => cases value <;> rfl
  have isGathered :
      gathered "name" (collectorArray config.config) =
        collectorArray config.config :=
    NamedList.gather_of_distinct config.distinct_collectorArray
  unfold configuredIndicatorJobs
  rw [jobs, ← isGathered, withSkillJobs_gathered, checkedIndicators_eq,
    isGathered]

theorem cons_append_eq_iff {Item : Type} {item : Item}
    {front : List Item} (absent : item ∉ front) (back : List Item) :
    item :: (front ++ back) = front ++ item :: back ↔ front = [] := by
  cases front with
  | nil => simp
  | cons first rest =>
    constructor
    · intro same
      obtain ⟨rfl, -⟩ := List.cons.inj same
      exact absurd List.mem_cons_self absent
    · intro nothing
      cases nothing

theorem shownPair_housekeeperJob (filter : Option String) :
    shownPair filter (.hash housekeeperJob) = none := by
  unfold shownPair
  cases wantedNames filter with
  | none => rfl
  | some wanted => exact ite_self none

theorem shownPair_merge_housekeeperJob
    (filter : Option String) {declaration : JsonValue}
    (named : declaration.identity "name" = some "housekeeper") :
    shownPair filter
        (mergeNamedHashItem mergeHashes (.hash housekeeperJob)
          declaration) =
      shownPair filter declaration := by
  obtain ⟨fields, value, rfl, found, text⟩ :=
    JsonValue.eq_hash_of_identity named
  have sameName :
      jobField (mergeHashes housekeeperJob fields) "name" =
        jobField fields "name" := by
    unfold jobField
    rw [lookup_mergeHashes_of_scalar found
      (JsonValue.isScalar_of_identityText text), found]
  have sameField (field : String) (unnamed : namedIdentity field = none)
      (absent : Entries.lookup housekeeperJob field = none) :
      jobField (mergeHashes housekeeperJob fields) field =
        jobField fields field := by
    have unchanged :
        collapseField mergeHashes field = (id : JsonValue → JsonValue) :=
      funext (collapseField_of_unnamed unnamed)
    unfold jobField
    rw [lookup_mergeHashes, unchanged, Option.map_id, id, absent,
      Option.or_none]
    cases Entries.lookup fields field with
    | none => rfl
    | some value => cases value <;> rfl
  have samePair :
      projectIndicator (.hash (mergeHashes housekeeperJob fields)) =
        projectIndicator (.hash fields) := by
    unfold projectIndicator
    dsimp only
    rw [sameName, sameField "indicator" rfl rfl, sameField "disable" rfl rfl]
  have sameIdentity :
      (JsonValue.hash (mergeHashes housekeeperJob fields)).identity
          "name" =
        (JsonValue.hash fields).identity "name" := by
    rw [named]
    exact keepsIdentity "name" _ _ _ identity_housekeeperJob named
  have sameWanted (wanted : List String) :
      isWanted wanted (.hash (mergeHashes housekeeperJob fields)) =
        isWanted wanted (.hash fields) := by
    unfold isWanted
    rw [sameIdentity]
  unfold shownPair mergeNamedHashItem
  dsimp only
  simp only [samePair, sameWanted]

theorem identityText_of_shownPair {filter : Option String}
    {pair : JsonValue × JsonValue}
    (shown : shownPair filter job = some pair) :
    job.identity "name" = pair.1.identityText := by
  have projected : projectIndicator job = some pair := by
    unfold shownPair at shown
    cases names : wantedNames filter with
    | none =>
      rw [names] at shown
      exact shown
    | some wanted =>
      rw [names] at shown
      dsimp only at shown
      split at shown
      · exact shown
      · cases shown
  cases job with
  | hash fields =>
    unfold projectIndicator at projected
    dsimp only at projected
    split at projected
    · split at projected
      · obtain rfl := Option.some.inj projected
        change (Entries.lookup fields "name").bind
            JsonValue.identityText =
          (jobField fields "name").identityText
        unfold jobField
        cases Entries.lookup fields "name" <;> rfl
      · cases projected
    · cases projected
  | _ => cases projected

/-- The lists agree when nothing shown is ahead of the declaration. -/
theorem shown_append_eq_iff (filter : Option String)
    {front back skillJobs : List JsonValue} {housekeeper : JsonValue}
    (distinct :
      NamedList.Distinct (JsonValue.identity "name")
        (front ++ housekeeper :: back))
    (named : housekeeper.identity "name" = some "housekeeper")
    (others : ∀ job ∈ skillJobs, job.identity "name" ≠ some "housekeeper") :
    (gathered "name"
        (front ++ housekeeper :: back ++ skillJobs)).filterMap
          (shownPair filter) =
      (gathered "name"
        (.hash housekeeperJob ::
          (front ++ housekeeper :: back ++ skillJobs))).filterMap
            (shownPair filter) ↔
      (IsShown filter housekeeper [] →
        ∀ job ∈ front,
          ¬ IsShown filter job (sameNamed skillJobs job)) := by
  let take := NamedList.taken (JsonValue.identity "name")
    (mergeNamedHashItem mergeHashes) skillJobs
  let rest := gathered "name"
    (NamedList.leftOver (JsonValue.identity "name")
      (front ++ housekeeper :: back) skillJobs)
  have names := distinct
  rw [NamedList.Distinct, List.filterMap_append,
    List.filterMap_cons_some named] at names
  obtain ⟨-, later, apart⟩ := List.nodup_append.mp names
  have absentFront :
      some "housekeeper" ∉ front.map (JsonValue.identity "name") := by
    intro isIn
    obtain ⟨job, isJob, same⟩ := List.mem_map.mp isIn
    exact apart "housekeeper" (List.mem_filterMap.mpr ⟨job, isJob, same⟩)
      "housekeeper" List.mem_cons_self rfl
  have absentBack :
      some "housekeeper" ∉ back.map (JsonValue.identity "name") := by
    intro isIn
    obtain ⟨job, isJob, same⟩ := List.mem_map.mp isIn
    exact (List.nodup_cons.mp later).1
      (List.mem_filterMap.mpr ⟨job, isJob, same⟩)
  have absentSkills :
      some "housekeeper" ∉ skillJobs.map (JsonValue.identity "name") := by
    intro isIn
    obtain ⟨job, isJob, same⟩ := List.mem_map.mp isIn
    exact others job isJob same
  have alone : sameNamed skillJobs housekeeper = [] := by
    rw [sameNamed, named]
    exact NamedList.withName_of_absent absentSkills
  have unchanged : take housekeeper = housekeeper := by
    have folded := taken_eq_foldl skillJobs housekeeper
    rw [alone] at folded
    exact folded
  have indicators :
      gathered "name" (front ++ housekeeper :: back ++ skillJobs) =
        front.map take ++ housekeeper :: (back.map take ++ rest) := by
    have whole :
        gathered "name" (front ++ housekeeper :: back ++ skillJobs) =
          (front ++ housekeeper :: back).map take ++ rest :=
      NamedList.gather_append_of_distinct distinct skillJobs
    rw [whole, List.map_append, List.map_cons, unchanged,
      List.append_assoc, List.cons_append]
  have collectors :
      gathered "name"
          (.hash housekeeperJob ::
            (front ++ housekeeper :: back ++ skillJobs)) =
        mergeNamedHashItem mergeHashes (.hash housekeeperJob)
            housekeeper ::
          (front.map take ++ (back.map take ++ rest)) := by
    have selected :
        NamedList.withName (JsonValue.identity "name") "housekeeper"
            (front ++ housekeeper :: back ++ skillJobs) =
          [housekeeper] := by
      rw [NamedList.withName_append, NamedList.withName_append,
        NamedList.withName_of_absent absentFront,
        NamedList.withName_cons_of_eq named,
        NamedList.withName_of_absent absentBack,
        NamedList.withName_of_absent absentSkills]
      rfl
    have excluded :
        NamedList.withoutName (JsonValue.identity "name") "housekeeper"
            (front ++ housekeeper :: back ++ skillJobs) =
          (front ++ back) ++ skillJobs := by
      rw [NamedList.withoutName_append, NamedList.withoutName_append,
        NamedList.withoutName_of_absent absentFront,
        NamedList.withoutName_cons_of_eq named,
        NamedList.withoutName_of_absent absentBack,
        NamedList.withoutName_of_absent absentSkills]
    have distinctOthers :
        NamedList.Distinct (JsonValue.identity "name") (front ++ back) := by
      rw [NamedList.Distinct, List.filterMap_append]
      exact names.sublist
        (List.Sublist.append_left (List.sublist_cons_self _ _) _)
    have sameRest :
        NamedList.leftOver (JsonValue.identity "name") (front ++ back)
            skillJobs =
          NamedList.leftOver (JsonValue.identity "name")
            (front ++ housekeeper :: back) skillJobs := by
      apply NamedList.leftOver_congr
      intro job isJob key jobNamed
      have different : key ≠ "housekeeper" := by
        rintro rfl
        exact others job isJob jobNamed
      rw [List.map_append, List.map_append, List.map_cons, named,
        List.mem_append, List.mem_append, List.mem_cons, Option.some_inj,
        or_iff_right different]
    have gatheredOthers :
        gathered "name" ((front ++ back) ++ skillJobs) =
          front.map take ++ (back.map take ++ rest) := by
      have whole :
          gathered "name" ((front ++ back) ++ skillJobs) =
            (front ++ back).map take ++
              gathered "name"
                (NamedList.leftOver (JsonValue.identity "name")
                  (front ++ back) skillJobs) :=
        NamedList.gather_append_of_distinct distinctOthers skillJobs
      rw [whole, sameRest, List.map_append, List.append_assoc]
    rw [← gatheredOthers, gathered,
      NamedList.gather_of_some identity_housekeeperJob, selected, excluded]
    rfl
  have shownAlone :
      (shownPair filter housekeeper).isSome = true ↔
        IsShown filter housekeeper [] := by
    have shown := shownPair_taken_isSome_iff filter skillJobs housekeeper
    rw [alone] at shown
    rw [← shown]
    exact Iff.of_eq (congrArg (fun job =>
      (shownPair filter job).isSome = true) unchanged.symm)
  have merged := shownPair_merge_housekeeperJob filter named
  have spread :
      (front.map take ++ (back.map take ++ rest)).filterMap
          (shownPair filter) =
        (front.map take).filterMap (shownPair filter) ++
          (back.map take ++ rest).filterMap (shownPair filter) :=
    List.filterMap_append
  rw [indicators, collectors, List.filterMap_append]
  cases shown : shownPair filter housekeeper with
  | none =>
    rw [List.filterMap_cons_none shown,
      List.filterMap_cons_none (merged.trans shown), spread]
    refine ⟨fun _ isShown => ?_, fun _ => rfl⟩
    rw [← shownAlone, shown] at isShown
    cases isShown
  | some pair =>
    have absent :
        pair ∉ (front.map take).filterMap (shownPair filter) := by
      intro isIn
      obtain ⟨taken, isTaken, same⟩ := List.mem_filterMap.mp isIn
      obtain ⟨job, isJob, rfl⟩ := List.mem_map.mp isTaken
      have identified := identityText_of_shownPair same
      rw [identity_taken, ← identityText_of_shownPair shown, named]
        at identified
      exact absentFront (List.mem_map.mpr ⟨job, isJob, identified⟩)
    have isShown : IsShown filter housekeeper [] := by
      rw [← shownAlone, shown]
      rfl
    rw [List.filterMap_cons_some shown,
      List.filterMap_cons_some (merged.trans shown), spread, eq_comm,
      cons_append_eq_iff absent,
      List.filterMap_eq_nil_iff, List.forall_mem_map]
    constructor
    · intro hidden _ job isJob jobShown
      rw [← shownPair_taken_isSome_iff, hidden job isJob] at jobShown
      cases jobShown
    · intro hidden job isJob
      have notShown := hidden isShown job isJob
      rw [← shownPair_taken_isSome_iff, Option.not_isSome_iff_eq_none]
        at notShown
      exact notShown

/--
The indicator list is the projection of the collector list exactly when no
shown indicator is declared ahead of a shown `housekeeper`.
-/
theorem indicatorCollectors_eq_iff
    (config : MergedConfig) (entries : List SkillConfig)
    (filter : Option String) (jobs : List JsonValue)
    (succeed :
      collectors referenceText config.config entries filter = .ok jobs) :
    indicatorCollectors referenceText config.config entries filter =
        jobs.filterMap enabledIndicator ↔
      HousekeeperLeads (collectorArray config.config)
        (skillCollectors referenceText entries) filter := by
  have others :
      ∀ job ∈ skillCollectors referenceText entries,
        job.identity "name" ≠ some "housekeeper" :=
    fun job isJob => not_housekeeper_of_mem_skillCollectors isJob
  rw [filterMap_enabledIndicator succeed, indicatorCollectors,
    configuredIndicatorJobs_eq, configuredCollectorJobs_eq,
    filterMap_checkedCollectors, filterMap_checkedCollectors]
  by_cases declared :
      some "housekeeper" ∈
        (collectorArray config.config).map (JsonValue.identity "name")
  · obtain ⟨housekeeper, isIn, named⟩ := List.mem_map.mp declared
    obtain ⟨front, back, split⟩ := List.append_of_mem isIn
    have distinct := config.distinct_collectorArray
    constructor
    · intro same front housekeeper back split named
      rw [split] at same distinct
      exact (shown_append_eq_iff filter distinct named others).mp same
    · intro leads
      have shown := leads front housekeeper back split named
      rw [split] at distinct ⊢
      exact (shown_append_eq_iff filter distinct named others).mpr shown
  · have absentSkills :
        some "housekeeper" ∉
          (skillCollectors referenceText entries).map
            (JsonValue.identity "name") := by
      intro isIn
      obtain ⟨job, isJob, same⟩ := List.mem_map.mp isIn
      exact others job isJob same
    have alone :
        gathered "name"
            (.hash housekeeperJob ::
              (collectorArray config.config ++
                skillCollectors referenceText entries)) =
          .hash housekeeperJob ::
            gathered "name"
              (collectorArray config.config ++
                skillCollectors referenceText entries) := by
      rw [gathered, NamedList.gather_of_some identity_housekeeperJob,
        NamedList.withName_append, NamedList.withoutName_append,
        NamedList.withName_of_absent declared,
        NamedList.withName_of_absent absentSkills,
        NamedList.withoutName_of_absent declared,
        NamedList.withoutName_of_absent absentSkills]
      rfl
    rw [alone, List.filterMap_cons, shownPair_housekeeperJob]
    refine ⟨fun _ front housekeeper back split named => ?_, fun _ => rfl⟩
    rw [split] at declared
    exact absurd
      (List.mem_map.mpr ⟨housekeeper, List.mem_append_right _
        List.mem_cons_self, named⟩) declared

end

def labelled (name : String) : JsonValue :=
  .hash [("name", .string name), ("indicator", .hash [])]

/-- A configuration file that lists two collectors with indicators. -/
def twoLabelled (first second : String) : MergedConfig :=
  MergedConfig.ofLayers
    [some [("collectors", .array [labelled first, labelled second])]] [] []

/-- A `housekeeper` that is listed first keeps its place in both lists. -/
theorem indicatorCollectors_eq_iff_housekeeper_first :
    ∃ jobs,
      collectors (fun _ => "") (twoLabelled "housekeeper" "disk").config []
          none = .ok jobs ∧
        indicatorCollectors (fun _ => "")
            (twoLabelled "housekeeper" "disk").config [] none =
          jobs.filterMap enabledIndicator := by
  refine ⟨_, rfl, ?_⟩
  refine (indicatorCollectors_eq_iff (twoLabelled "housekeeper" "disk") []
    none _ rfl).mpr ?_
  intro front housekeeper back split named _ job isJob
  have declared :
      [labelled "housekeeper", labelled "disk"] =
        front ++ housekeeper :: back := split
  cases front with
  | nil => cases isJob
  | cons first rest =>
    obtain ⟨-, last⟩ := List.cons.inj declared
    cases rest with
    | nil =>
      obtain ⟨rfl, -⟩ := List.cons.inj last
      exact absurd named (by decide)
    | cons second others =>
      obtain ⟨-, nothing⟩ := List.cons.inj last
      cases others <;> cases nothing

/-- A `housekeeper` that is listed last is the first of the collectors. -/
theorem housekeeper_moves_to_the_front :
    ∃ jobs,
      collectors (fun _ => "") (twoLabelled "disk" "housekeeper").config []
          none = .ok jobs ∧
        (jobs.filterMap enabledIndicator).map
            (fun pair => pair.1.plainText) =
          [some "housekeeper", some "disk"] ∧
        (indicatorCollectors (fun _ => "")
            (twoLabelled "disk" "housekeeper").config [] none).map
            (fun pair => pair.1.plainText) =
          [some "disk", some "housekeeper"] ∧
        indicatorCollectors (fun _ => "")
            (twoLabelled "disk" "housekeeper").config [] none ≠
          jobs.filterMap enabledIndicator := by
  refine ⟨_, rfl, rfl, rfl, fun same => ?_⟩
  have names := congrArg
    (List.map fun pair : JsonValue × JsonValue => pair.1.plainText) same
  exact absurd
    (names : [some "disk", some "housekeeper"] =
      [some "housekeeper", some "disk"]) (by decide)

end DeveloperDashboard.Config
