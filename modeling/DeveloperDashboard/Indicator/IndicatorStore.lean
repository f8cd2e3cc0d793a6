import DeveloperDashboard.Perl.Text
import DeveloperDashboard.Library.Entries
import Mathlib.Data.List.Dedup

namespace DeveloperDashboard.Indicator

open Perl

/-!
# Indicator records

A record is a hash of scalars.  `collector_indicator_candidate` puts the
declaration of an indicator over the record that exists, and
`_indicator_matches` compares the fields that are shown.
-/

/-- A scalar of decoded JSON; a number is the text Perl gives it. -/
inductive Scalar where
  | null
  | boolean (value : Bool)
  | number (text : Text)
  | string (text : Text)
  deriving DecidableEq

namespace Scalar

def text? : Scalar → Option Text
  | .null => none
  | .boolean value => some (if value then ['1'] else ['0'])
  | .number text => some text
  | .string text => some text

def text (scalar : Scalar) : Text :=
  scalar.text?.getD []

def truthy (scalar : Scalar) : Bool :=
  isTrue scalar.text

def orEmpty (scalar : Scalar) : Scalar :=
  if scalar = .null then .string [] else scalar

@[simp] theorem text_orEmpty (scalar : Scalar) :
    scalar.orEmpty.text = scalar.text := by
  unfold orEmpty
  split
  · next same => rw [same]; rfl
  · rfl

def ofNat (number : Nat) : Scalar :=
  .number (Nat.repr number).toList

end Scalar

/-- The fields of a record; those that no rule is about are `other`. -/
inductive Field where
  | name
  | label
  | alias_
  | icon
  | iconTemplate
  | configuredLabel
  | configuredAlias
  | configuredIcon
  | configuredPageStatusIcon
  | status
  | priority
  | promptVisible
  | pageStatusIcon
  | collectorName
  | collectorOrder
  | managedByCollector
  | updatedAt
  | stale
  | other (key : String)
  deriving DecidableEq

abbrev Record :=
  Field → Option Scalar

namespace Record

def empty : Record :=
  fun _ => none

/-- The string of a field, empty when it does not exist or is undefined. -/
def text (record : Record) (field : Field) : Text :=
  ((record field).map Scalar.text).getD []

def truthy (record : Record) (field : Field) : Bool :=
  isTrue (record.text field)

/-- The string of a field that is read with `|| ''`. -/
def trueText (record : Record) (field : Field) : Text :=
  if record.truthy field then record.text field else []

def defines (record : Record) (field : Field) : Bool :=
  (record field).any fun value => value.text?.isSome

end Record

/-- `_is_template_toolkit_text`. -/
def isTemplateToolkitText (text : Text) : Bool :=
  text.tails.any fun rest => "[%".toList.isPrefixOf rest

/-- `_is_placeholder_missing_indicator`. -/
def isPlaceholderMissing (record : Record) : Bool :=
  record.truthy .managedByCollector &&
    decide
      ((record.text .status).map Char.toLower = "missing".toList)

/-- What a collector job of the configuration says about its indicator. -/
structure CollectorJob where
  name : Option Scalar
  disable : Option Scalar
  /-- the hash `indicator`, if it is one -/
  indicator : Option Record

structure ActiveJob where
  name : Scalar
  indicator : Record
  named : name.text ≠ []

namespace ActiveJob

def indicatorName (job : ActiveJob) : Scalar :=
  match job.indicator .name with
  | some name => if name.truthy then name else job.name
  | none => job.name

def directory (job : ActiveJob) : Text :=
  job.indicatorName.text

def label (job : ActiveJob) : Scalar :=
  match job.indicator .label with
  | some label => if label.text = [] then job.indicatorName else label
  | none => job.indicatorName

def configured (job : ActiveJob) (field : Field) : Scalar :=
  ((job.indicator field).map Scalar.orEmpty).getD (.string [])

def hasTemplate (job : ActiveJob) : Bool :=
  isTemplateToolkitText (job.indicator.text .icon)

end ActiveJob

/-- A job that takes part in a sync: the guards at the head of its loop. -/
def activeJob? (job : Option CollectorJob) : Option ActiveJob :=
  match job with
  | none => none
  | some job =>
    match job.indicator, job.name with
    | some indicator, some name =>
      if named : name.text ≠ [] then
        if (job.disable.map Scalar.truthy).getD false then none
        else some ⟨name, indicator, named⟩
      else none
    | _, _ => none

/-- The jobs of a sync, each with its `collector_order`. -/
def activeJobs (jobs : List (Option CollectorJob)) :
    List (ActiveJob × Nat) :=
  (jobs.filterMap activeJob?).zipIdx

def preservedIcon (job : ActiveJob) (existing : Record) : Scalar :=
  if existing.defines .iconTemplate ∧
      existing.text .iconTemplate = job.indicator.text .icon ∧
        existing.defines .icon then
    (existing .icon).getD (.string [])
  else .string []

/-- `collector_indicator_candidate`. -/
def collectorIndicatorCandidate (job : ActiveJob) (existing : Record)
    (status : Scalar) (order : Option Scalar) :
    Record
  | .name => some job.indicatorName
  | .label => some job.label
  | .configuredLabel => some job.label
  | .configuredAlias => some (job.configured .alias_)
  | .configuredPageStatusIcon => some (job.configured .pageStatusIcon)
  | .status => some status
  | .collectorOrder =>
    match order with
    | some order => some order
    | none => some ((existing .collectorOrder).getD .null)
  | .collectorName => some job.name
  | .managedByCollector => some (.number ['1'])
  | .promptVisible =>
    ((job.indicator .promptVisible).or (existing .promptVisible)).or
      (some (.number ['1']))
  | .iconTemplate =>
    if job.hasTemplate then job.indicator .icon else none
  | .configuredIcon =>
    if job.hasTemplate then job.indicator .icon
    else some (job.configured .icon)
  | .icon =>
    if job.hasTemplate then some (preservedIcon job existing)
    else (job.indicator .icon).map Scalar.orEmpty
  | field => (job.indicator field).or (existing field)

/-- The fields that `_indicator_matches` compares. -/
def matchedFields : List Field :=
  [.name, .label, .alias_, .icon, .iconTemplate, .configuredLabel,
    .configuredAlias, .configuredIcon, .configuredPageStatusIcon, .status,
    .priority, .promptVisible, .pageStatusIcon, .collectorName,
    .collectorOrder, .managedByCollector]

/-- `_indicator_matches`. -/
def indicatorMatches (existing candidate : Record) : Bool :=
  matchedFields.all fun field =>
    decide (field = .collectorOrder ∧ existing.text field = []) ||
      decide (existing.text field = candidate.text field)

def preserveFields
    (preserve : List Field) (existing candidate : Record) : Record :=
  fun field =>
    if field ∈ preserve then (existing field).or (candidate field)
    else candidate field

/-- The record that `set_indicator` writes. -/
def savedRecord (name now : Scalar) (preserve : List Field)
    (existing candidate : Record) :
    Record
  | .name => some name
  | .updatedAt =>
    (preserveFields preserve existing candidate .updatedAt).or (some now)
  | field => preserveFields preserve existing candidate field

theorem text_preserveFields
    (preserve : List Field) (existing candidate : Record) (field : Field) :
    (preserveFields preserve existing candidate).text field =
      if field ∈ preserve ∧ (existing field).isSome = true then
        existing.text field
      else candidate.text field := by
  unfold preserveFields Record.text
  by_cases member : field ∈ preserve
  · cases found : existing field with
    | none => simp [member, found]
    | some value => simp [member, found]
  · simp [member]

theorem Record.isSome_of_text_ne
    {record : Record} {field : Field} (text : record.text field ≠ []) :
    (record field).isSome = true := by
  unfold Record.text at text
  cases found : record field with
  | none => rw [found] at text; exact absurd rfl text
  | some value => rfl

open Library

/-!
# The indicator store

Every runtime layer has a directory of records.  Records are read from the
nearest layer that has one and written to the writable layer; a sync compares
what the jobs declare with what it reads.
-/

/--
A record as it stands in a directory: `set_indicator` names it after the
directory, which has a true name, and all its callers give a status.
-/
structure IsStored (directory : Text) (record : Record) : Prop where
  name : record.text .name = directory
  directory : isTrue directory = true
  status : record.text .status ≠ []

structure Layer where
  records : Entries Text Record
  stored : ∀ entry ∈ records, IsStored entry.1 entry.2

namespace Layer

/-- `_read_indicator_file`. -/
def read (layer : Layer) (name : Text) : Option Record :=
  layer.records.lookup name

def write (layer : Layer) (name : Text) (record : Record)
    (stored : IsStored name record) :
    Layer where
  records := layer.records.store name record
  stored := by
    intro entry member
    rcases Entries.mem_store member with old | ⟨rfl, rfl⟩
    · exact layer.stored entry old
    · exact stored

def remove (layer : Layer) (name : Text) : Layer where
  records := layer.records.remove name
  stored := fun entry member =>
    layer.stored entry (List.mem_of_mem_filter member)

end Layer

/-- The layers: the deepest, which is written to, and those it inherits. -/
structure Store where
  writable : Layer
  inherited : List Layer

variable {store : Store} {name : Text} {record : Record}

namespace Store

def empty : Store :=
  ⟨⟨[], fun _ member => nomatch member⟩, []⟩

/-- `_local_indicator`. -/
def localIndicator (store : Store) (name : Text) : Option Record :=
  store.writable.read name

/-- `_nearest_inherited_indicator`. -/
def nearestInherited (store : Store) (name : Text) : Option Record :=
  store.inherited.findSome? fun layer => layer.read name

/-- `get_indicator`. -/
def getIndicator (store : Store) (name : Text) : Option Record :=
  (store.localIndicator name).or (store.nearestInherited name)

def directories (store : Store) : List Text :=
  ((store.writable :: store.inherited).flatMap fun layer =>
    layer.records.map Prod.fst).dedup

/-- `list_indicators`, in the order of the directories. -/
def listIndicators (store : Store) : List Record :=
  store.directories.filterMap store.getIndicator

def put (store : Store) (name : Text) (record : Record)
    (stored : IsStored name record) :
    Store :=
  { store with writable := store.writable.write name record stored }

/-- `delete_indicator`. -/
def deleteIndicator (store : Store) (name : Text) : Store :=
  if name = [] then store
  else
    { writable := store.writable.remove name
      inherited := store.inherited.map fun layer => layer.remove name }

theorem isStored_localIndicator
    (found : store.localIndicator name = some record) :
    IsStored name record :=
  store.writable.stored _ (Entries.mem_of_lookup found)

theorem isStored_nearestInherited
    (found : store.nearestInherited name = some record) :
    IsStored name record := by
  obtain ⟨layer, -, read⟩ := List.exists_of_findSome?_eq_some found
  exact layer.stored _ (Entries.mem_of_lookup read)

theorem isStored_getIndicator
    (found : store.getIndicator name = some record) :
    IsStored name record := by
  rcases Option.or_eq_some_iff.mp found with here | ⟨-, inherited⟩
  · exact isStored_localIndicator here
  · exact isStored_nearestInherited inherited

end Store

def isLiveOf (job : ActiveJob) (record : Record) : Bool :=
  record.truthy .managedByCollector &&
    decide (record.trueText .collectorName = job.name.text) &&
    !isPlaceholderMissing record

def healedFrom (job : ActiveJob) (localRecord inherited : Option Record) :
    Option Record :=
  if localRecord.any isPlaceholderMissing then
    inherited.filter (isLiveOf job)
  else none

/-- `$effective_existing`. -/
def effectiveExisting
    (job : ActiveJob) (localRecord inherited : Option Record) : Record :=
  (((healedFrom job localRecord inherited).or localRecord).or
    inherited).getD Record.empty

/-- `$comparison_existing`. -/
def comparisonExisting (localRecord inherited : Option Record) : Record :=
  (localRecord.or inherited).getD Record.empty

def syncCandidate
    (job : ActiveJob) (order : Nat) (effective : Record) : Record :=
  collectorIndicatorCandidate job effective
    (if effective.text .status = [] then .string "missing".toList
      else (effective .status).getD .null)
    (some (Scalar.ofNat order))

def isOverridden
    (effective candidate : Record) (configured shown : Field) : Bool :=
  (effective configured).isSome &&
    decide (effective.text configured = candidate.text configured) &&
    decide (effective.text shown ≠ candidate.text configured)

def shownFields : List (Field × Field) :=
  [(.configuredLabel, .label), (.configuredAlias, .alias_),
    (.configuredPageStatusIcon, .pageStatusIcon), (.configuredIcon, .icon)]

/-- `@preserve_existing`. -/
def preserveExisting (job : ActiveJob) (healed : Bool)
    (effective candidate : Record) :
    List Field :=
  (if healed then [] else [.status, .updatedAt, .stale]) ++
  (if isLiveOf job effective then
    (shownFields.filter fun fields =>
      isOverridden effective candidate fields.1 fields.2).map Prod.snd
  else []) ++
  (if candidate.defines .iconTemplate ∧ effective.defines .iconTemplate ∧
      effective.text .iconTemplate = candidate.text .iconTemplate then
    [.icon, .iconTemplate]
  else [])

/-- What `_collector_sync_plan` returns. -/
structure SyncPlan where
  candidate : Record
  comparisonExisting : Record
  comparisonCandidate : Record
  preserveExisting : List Field
  needsWrite : Bool

/-- `_collector_sync_plan`, of the records that it has read. -/
def collectorSyncPlan (job : ActiveJob) (order : Nat)
    (localRecord inherited : Option Record) :
    SyncPlan :=
  let effective := effectiveExisting job localRecord inherited
  let candidate := syncCandidate job order effective
  let existing := comparisonExisting localRecord inherited
  let preserve :=
    preserveExisting job (healedFrom job localRecord inherited).isSome
      effective candidate
  let compared := preserveFields preserve existing candidate
  { candidate := candidate
    comparisonExisting := existing
    comparisonCandidate := compared
    preserveExisting := preserve
    needsWrite := !indicatorMatches existing compared }

def syncedRecord (job : ActiveJob) (order : Nat) (now : Scalar)
    (localRecord inherited : Option Record) :
    Record :=
  let plan := collectorSyncPlan job order localRecord inherited
  savedRecord job.indicatorName now plan.preserveExisting
    (localRecord.getD Record.empty) plan.candidate

theorem text_status_syncCandidate
    (job : ActiveJob) (order : Nat) (effective : Record) :
    (syncCandidate job order effective).text .status =
      if effective.text .status = [] then "missing".toList
      else effective.text .status := by
  unfold syncCandidate collectorIndicatorCandidate
  by_cases empty : effective.text .status = []
  · rw [if_pos empty, Record.text, if_pos empty]
    rfl
  · obtain ⟨value, found⟩ :=
      Option.isSome_iff_exists.mp (Record.isSome_of_text_ne empty)
    rw [if_neg empty, Record.text, if_neg empty, Record.text, found]
    rfl

theorem isStored_syncedRecord {job : ActiveJob} (order : Nat) (now : Scalar)
    {localRecord : Option Record} (inherited : Option Record)
    (isTrue : isTrue job.directory = true)
    (stored :
      ∀ record, localRecord = some record →
        IsStored job.directory record) :
    IsStored job.directory
      (syncedRecord job order now localRecord inherited) where
  name := rfl
  directory := isTrue
  status := by
    change (preserveFields _ (localRecord.getD Record.empty)
      (syncCandidate job order
        (effectiveExisting job localRecord inherited))).text .status ≠ []
    rw [text_preserveFields, text_status_syncCandidate]
    split
    · next preserved =>
        cases found : localRecord with
        | none => rw [found] at preserved; exact absurd preserved.2 Bool.false_ne_true
        | some record => exact (stored record found).status
    · split
      · decide
      · assumption

inductive Written where
  | saved (record : Record)
  | deleted (record : Record)

/-- One pass of the loop of `sync_collectors`. -/
def syncJob (now : Scalar) (store : Store) (job : ActiveJob) (order : Nat) :
    Except Text (Store × List Written) :=
  let localRecord := store.localIndicator job.directory
  let inherited := store.nearestInherited job.directory
  if (collectorSyncPlan job order localRecord inherited).needsWrite then
    if isTrue : isTrue job.directory = true then
      let record := syncedRecord job order now localRecord inherited
      .ok
        (store.put job.directory record
            (isStored_syncedRecord order now inherited isTrue fun _ found =>
              Store.isStored_localIndicator found),
          [.saved record])
    else .error "Missing indicator name".toList
  else .ok (store, [])

/-- The loop of `sync_collectors`. -/
def syncJobs (now : Scalar) :
    List (ActiveJob × Nat) → Store → Except Text (Store × List Written)
  | [], store => .ok (store, [])
  | (job, order) :: rest, store =>
    match syncJob now store job order with
    | .error message => .error message
    | .ok (next, first) =>
      match syncJobs now rest next with
      | .error message => .error message
      | .ok (last, others) => .ok (last, first ++ others)

/-- Whether a record belongs to a collector that no active job has. -/
def isObsolete
    (jobs : List (Option CollectorJob)) (record : Record) : Bool :=
  record.truthy .managedByCollector &&
    decide (record.trueText .collectorName ≠ []) &&
    (jobs.filterMap activeJob?).all fun job =>
      decide (job.name.text ≠ record.trueText .collectorName)

def obsoleteIndicators
    (jobs : List (Option CollectorJob)) (store : Store) : List Record :=
  store.listIndicators.filter (isObsolete jobs)

/-- `sync_collectors`, without what earlier calls have cached. -/
def syncCollectors
    (now : Scalar) (jobs : List (Option CollectorJob)) (store : Store) :
    Except Text (Store × List Written) :=
  if jobs = [] then .ok (store, [])
  else
    match syncJobs now (activeJobs jobs) store with
    | .error message => .error message
    | .ok (synced, saved) =>
      let obsolete := obsoleteIndicators jobs synced
      .ok
        (obsolete.foldl
            (fun store record =>
              store.deleteIndicator (record.text .name))
            synced,
          saved ++ obsolete.map Written.deleted)

/-- `collectors_need_sync`. -/
def collectorsNeedSync
    (jobs : List (Option CollectorJob)) (store : Store) : Bool :=
  (activeJobs jobs).any (fun job =>
      (collectorSyncPlan job.1 job.2
          (store.localIndicator job.1.directory)
          (store.nearestInherited job.1.directory)).needsWrite) ||
    store.listIndicators.any (isObsolete jobs)

end DeveloperDashboard.Indicator
