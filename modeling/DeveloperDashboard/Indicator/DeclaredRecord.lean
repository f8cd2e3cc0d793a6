import DeveloperDashboard.Indicator.SettledPlan

namespace DeveloperDashboard.Indicator

open Library Perl

/-!
# The record a job declares

A candidate lies over the record that exists, so a sync shows what the job
declares only where that record adds nothing.  A record is as configured when
nobody has overridden a field of it; what a sync writes over such a record is
as configured again.
-/

variable {job : ActiveJob} {order : Nat} {now : Scalar}
variable {localRecord inherited : Option Record}

def displayedFields : List Field :=
  [.label, .alias_, .icon, .pageStatusIcon, .promptVisible, .priority]

def freshCandidate (job : ActiveJob) (order : Nat) : Record :=
  syncCandidate job order Record.empty

/-- The shown fields that are no icon, each after what configures it. -/
def shownTexts : List (Field × Field) :=
  [(.configuredLabel, .label), (.configuredAlias, .alias_),
    (.configuredPageStatusIcon, .pageStatusIcon)]

/--
A record whose shown fields are as they were configured, and for whose
template no icon has been rendered.
-/
structure AsConfigured (record : Record) : Prop where
  shown :
    record.truthy .managedByCollector = true →
      ∀ fields ∈ shownTexts,
        (record fields.1).isSome = true →
          record.text fields.2 = record.text fields.1
  icon :
    record.truthy .managedByCollector = true →
      (record .configuredIcon).isSome = true →
        record.text .icon = record.text .configuredIcon ∨
          isTemplateToolkitText (record.text .configuredIcon) = true ∧
            record.text .icon = []
  template : record.text .iconTemplate ≠ [] → record.text .icon = []

theorem asConfigured_empty : AsConfigured Record.empty where
  shown := nofun
  icon := nofun
  template := fun some_ => absurd rfl some_

/-- Nothing that a job leaves out is found in the record that exists. -/
structure AddsNothing (job : ActiveJob) (effective : Record) : Prop where
  texts :
    ∀ field ∈ [Field.alias_, .pageStatusIcon, .priority],
      (job.indicator field).isSome = true ∨ effective.text field = []
  prompt :
    (job.indicator .promptVisible).isSome = true ∨
      effective .promptVisible = none ∨
        effective.text .promptVisible = ['1']

/--
A placeholder with an icon, in front of a live record for the template of the
job: the plan preserves the icon of the placeholder.
-/
def HasStaleIcon
    (job : ActiveJob) (localRecord inherited : Option Record) : Prop :=
  ∃ placeholder live,
    localRecord = some placeholder ∧ inherited = some live ∧
      isPlaceholderMissing placeholder = true ∧
      isLiveOf job live = true ∧
      job.hasTemplate = true ∧
      (live.text .iconTemplate = job.indicator.text .icon ∨
        live.text .configuredIcon = job.indicator.text .icon) ∧
      placeholder.text .icon ≠ []

def recordAfter (job : ActiveJob) (order : Nat) (now : Scalar)
    (localRecord inherited : Option Record) :
    Record :=
  if (collectorSyncPlan job order localRecord inherited).needsWrite then
    syncedRecord job order now localRecord inherited
  else comparisonExisting localRecord inherited

variable {field : Field}

theorem text_recordAfter (matched : field ∈ matchedFields)
    (notName : field ≠ .name) (notOrder : field ≠ .collectorOrder) :
    let plan := collectorSyncPlan job order localRecord inherited
    (recordAfter job order now localRecord inherited).text field =
        plan.candidate.text field ∨
      field ∈ plan.preserveExisting ∧
        ((comparisonExisting localRecord inherited) field).isSome = true ∧
        (recordAfter job order now localRecord inherited).text field =
          (comparisonExisting localRecord inherited).text field := by
  have notTime : field ≠ .updatedAt := by
    rintro rfl
    exact absurd matched (by decide)
  dsimp only
  unfold recordAfter
  cases writes :
      (collectorSyncPlan job order localRecord inherited).needsWrite with
  | true =>
    rw [if_pos rfl, text_syncedRecord notName notTime]
    dsimp only
    split
    · next preserved =>
        obtain ⟨member, exists_⟩ := preserved
        cases here : localRecord with
        | none => rw [here] at exists_; contradiction
        | some record =>
          rw [here] at member exists_
          exact .inr ⟨member, exists_, rfl⟩
    · exact .inl rfl
  | false =>
    rw [if_neg Bool.false_ne_true]
    unfold collectorSyncPlan at writes
    dsimp only at writes
    rw [Bool.not_eq_false'] at writes
    have same := text_of_indicatorMatches writes matched notOrder
    rw [text_preserveFields] at same
    split at same
    · next preserved => exact .inr ⟨preserved.1, preserved.2, rfl⟩
    · exact .inl same

section Unadorned

variable
  (asConfigured :
    AsConfigured (effectiveExisting job localRecord inherited))

include asConfigured in
theorem notMem_preserve_of_asConfigured {configured shown : Field}
    (fields : (configured, shown) ∈ shownTexts) {healed : Bool}
    {candidate : Record} :
    shown ∉
      preserveExisting job healed
        (effectiveExisting job localRecord inherited) candidate := by
  intro preserved
  rcases mem_preserveExisting_iff.mp preserved with
    ⟨-, member⟩ | ⟨isLive, other, member, overridden⟩ | ⟨-, -, -, member⟩
  · simp only [shownTexts, List.mem_cons, List.not_mem_nil, or_false,
      Prod.mk.injEq] at fields
    rcases fields with ⟨-, rfl⟩ | ⟨-, rfl⟩ | ⟨-, rfl⟩ <;> simp at member
  · have sameField : other = configured := by
      simp only [shownTexts, shownFields, List.mem_cons, List.not_mem_nil,
        or_false, Prod.mk.injEq] at fields member
      rcases fields with ⟨rfl, rfl⟩ | ⟨rfl, rfl⟩ | ⟨rfl, rfl⟩ <;>
        simpa using member
    obtain rfl := sameField
    unfold isOverridden at overridden
    rw [Bool.and_eq_true, Bool.and_eq_true, decide_eq_true_eq,
      decide_eq_true_eq] at overridden
    obtain ⟨⟨exists_, same⟩, different⟩ := overridden
    have own :=
      asConfigured.shown (isLiveOf_iff.mp isLive).1 _ fields exists_
    exact different (own.trans same)
  · simp only [shownTexts, List.mem_cons, List.not_mem_nil, or_false,
      Prod.mk.injEq] at fields
    rcases fields with ⟨-, rfl⟩ | ⟨-, rfl⟩ | ⟨-, rfl⟩ <;> simp at member

include asConfigured in
theorem preservedIcon_of_asConfigured (template : job.hasTemplate = true) :
    (preservedIcon job
      (effectiveExisting job localRecord inherited)).text = [] := by
  unfold preservedIcon
  split
  · next rendered =>
      have some_ :
          (effectiveExisting job localRecord inherited).text
            .iconTemplate ≠ [] := by
        rw [rendered.2.1]
        exact text_icon_of_hasTemplate template
      have none_ := asConfigured.template some_
      unfold Record.text at none_
      cases found :
          effectiveExisting job localRecord inherited .icon with
      | none => rfl
      | some icon =>
        rw [found] at none_
        exact none_
  · rfl

include asConfigured in
theorem text_candidate_displayed
    (adds : AddsNothing job (effectiveExisting job localRecord inherited))
    (displayed : field ∈ displayedFields) :
    (syncCandidate job order
        (effectiveExisting job localRecord inherited)).text field =
      (freshCandidate job order).text field := by
  have optional (field : Field)
      (member : field ∈ [Field.alias_, .pageStatusIcon, .priority])
      (isShown :
        ∀ existing,
          syncCandidate job order existing field =
            (job.indicator field).or (existing field)) :
      (syncCandidate job order
          (effectiveExisting job localRecord inherited)).text field =
        (freshCandidate job order).text field := by
    rw [freshCandidate, Record.text, Record.text, isShown, isShown]
    cases declared : job.indicator field with
    | some value => rfl
    | none =>
      rcases adds.texts field member with given | empty
      · rw [declared] at given
        contradiction
      · exact empty
  simp only [displayedFields, List.mem_cons, List.not_mem_nil, or_false]
    at displayed
  rcases displayed with rfl | rfl | rfl | rfl | rfl | rfl
  · rfl
  · exact optional .alias_ (by decide) fun _ => rfl
  · rw [freshCandidate, Record.text, Record.text, syncCandidate,
      syncCandidate, collectorIndicatorCandidate,
      collectorIndicatorCandidate]
    cases template : job.hasTemplate with
    | true =>
      exact preservedIcon_of_asConfigured asConfigured template
    | false => rfl
  · exact optional .pageStatusIcon (by decide) fun _ => rfl
  · change Option.getD (Option.map Scalar.text
        (((job.indicator .promptVisible).or
          (effectiveExisting job localRecord inherited
            .promptVisible)).or _)) _ =
      Option.getD (Option.map Scalar.text
        (((job.indicator .promptVisible).or none).or _)) _
    rcases adds.prompt with given | absent | same
    · obtain ⟨value, declared⟩ := Option.isSome_iff_exists.mp given
      rw [declared]
      rfl
    · rw [absent]
    · cases job.indicator .promptVisible with
      | some value => rfl
      | none =>
        unfold Record.text at same
        cases found :
            effectiveExisting job localRecord inherited
              .promptVisible with
        | none => rfl
        | some value =>
          rw [found] at same
          exact same
  · exact optional .priority (by decide) fun _ => rfl

theorem text_configuredIcon_syncCandidate (existing : Record) :
    (syncCandidate job order existing).text .configuredIcon =
      job.indicator.text .icon := by
  rw [Record.text, syncCandidate, collectorIndicatorCandidate]
  cases template : job.hasTemplate with
  | true => rfl
  | false => exact text_configured job .icon

include asConfigured in
theorem template_of_icon_preserved {healed : Bool}
    (preserved :
      Field.icon ∈
        preserveExisting job healed
          (effectiveExisting job localRecord inherited)
          (syncCandidate job order
            (effectiveExisting job localRecord inherited))) :
    job.hasTemplate = true ∧
      (effectiveExisting job localRecord inherited).text .icon = [] ∧
      ((effectiveExisting job localRecord inherited).text .iconTemplate =
          job.indicator.text .icon ∨
        (effectiveExisting job localRecord inherited).text
            .configuredIcon =
          job.indicator.text .icon) := by
  rcases mem_preserveExisting_iff.mp preserved with
    ⟨-, member⟩ | ⟨isLive, other, member, overridden⟩ |
      ⟨defined, -, same, -⟩
  · simp at member
  · have isIcon : other = .configuredIcon := by
      simpa [shownFields] using member
    obtain rfl := isIcon
    unfold isOverridden at overridden
    rw [Bool.and_eq_true, Bool.and_eq_true, decide_eq_true_eq,
      decide_eq_true_eq, text_configuredIcon_syncCandidate] at overridden
    obtain ⟨⟨exists_, same⟩, different⟩ := overridden
    rcases asConfigured.icon (isLiveOf_iff.mp isLive).1 exists_ with
      own | ⟨template, none_⟩
    · exact absurd (own.trans same) different
    · rw [same] at template
      exact ⟨template, none_, .inr same⟩
  · have template : job.hasTemplate = true := by
      by_contra none_
      rw [Bool.not_eq_true] at none_
      simp [syncCandidate, collectorIndicatorCandidate, Record.defines,
        none_] at defined
    rw [text_iconTemplate_syncCandidate template] at same
    refine ⟨template, asConfigured.template ?_, .inl same⟩
    rw [same]
    exact text_icon_of_hasTemplate template

include asConfigured in
/-- What the record shows after a sync is what the job declares. -/
theorem text_recordAfter_displayed
    (adds : AddsNothing job (effectiveExisting job localRecord inherited))
    (fresh : ¬ HasStaleIcon job localRecord inherited)
    (displayed : field ∈ displayedFields) :
    (recordAfter job order now localRecord inherited).text field =
      (freshCandidate job order).text field := by
  have candidate :
      (collectorSyncPlan job order localRecord inherited).candidate.text
          field =
        (freshCandidate job order).text field :=
    text_candidate_displayed asConfigured adds displayed
  have notText (configured shown : Field)
      (fields : (configured, shown) ∈ shownTexts)
      (preserved :
        shown ∈
          (collectorSyncPlan job order localRecord
            inherited).preserveExisting) :
      (comparisonExisting localRecord inherited).text shown =
        (freshCandidate job order).text shown :=
    absurd preserved (notMem_preserve_of_asConfigured asConfigured fields)
  have matched : field ∈ matchedFields ∧ field ≠ .name ∧
      field ≠ .collectorOrder := by
    simp only [displayedFields, List.mem_cons, List.not_mem_nil, or_false]
      at displayed
    rcases displayed with rfl | rfl | rfl | rfl | rfl | rfl <;> decide
  rcases text_recordAfter matched.1 matched.2.1 matched.2.2 with
    same | ⟨preserved, -, same⟩
  · exact same.trans candidate
  · refine same.trans ?_
    simp only [displayedFields, List.mem_cons, List.not_mem_nil, or_false]
      at displayed
    rcases displayed with rfl | rfl | rfl | rfl | rfl | rfl
    · exact notText .configuredLabel .label (by simp [shownTexts])
        preserved
    · exact notText .configuredAlias .alias_ (by simp [shownTexts])
        preserved
    · obtain ⟨template, none_, rendered⟩ :=
        template_of_icon_preserved asConfigured preserved
      have freshIcon : (freshCandidate job order).text .icon = [] := by
        rw [freshCandidate, Record.text, syncCandidate,
          collectorIndicatorCandidate, if_pos template]
        rfl
      rw [freshIcon]
      cases healed : healedFrom job localRecord inherited with
      | none =>
        have unhealed :
            effectiveExisting job localRecord inherited =
              comparisonExisting localRecord inherited := by
          rw [effectiveExisting, healed, Option.none_or]
          rfl
        rw [← unhealed]
        exact none_
      | some live =>
        obtain ⟨missing, found, isLive⟩ :=
          healedFrom_eq_some_iff.mp healed
        have effective :
            effectiveExisting job localRecord inherited = live := by
          rw [effectiveExisting, healed]
          rfl
        rw [effective] at rendered
        cases here : localRecord with
        | none => rw [here] at missing; contradiction
        | some placeholder =>
          rw [here] at missing
          by_contra some_
          exact fresh
            ⟨placeholder, live, here, found, missing, isLive, template,
              rendered, some_⟩
    · exact notText .configuredPageStatusIcon .pageStatusIcon (by simp [shownTexts])
        preserved
    · exact absurd (mem_of_mem_preserveExisting preserved) (by decide)
    · exact absurd (mem_of_mem_preserveExisting preserved) (by decide)

include asConfigured in
theorem asConfigured_syncedRecord
    (writes :
      (collectorSyncPlan job order localRecord inherited).needsWrite = true)
    (adds : AddsNothing job (effectiveExisting job localRecord inherited))
    (fresh : ¬ HasStaleIcon job localRecord inherited) :
    AsConfigured (syncedRecord job order now localRecord inherited) := by
  have after :
      recordAfter job order now localRecord inherited =
        syncedRecord job order now localRecord inherited :=
    if_pos writes
  have shows (field : Field) (displayed : field ∈ displayedFields) :
      (syncedRecord job order now localRecord inherited).text field =
        (freshCandidate job order).text field := by
    rw [← after]
    exact text_recordAfter_displayed asConfigured adds fresh displayed
  have optional (configured shown : Field)
      (displayed : shown ∈ displayedFields)
      (written :
        syncedRecord job order now localRecord inherited configured =
          some (job.configured shown))
      (isShown :
        freshCandidate job order shown =
          (job.indicator shown).or none) :
      (syncedRecord job order now localRecord inherited).text shown =
        (syncedRecord job order now localRecord inherited).text
          configured := by
    rw [shows shown displayed, Record.text, Record.text, written, isShown,
      Option.or_none]
    exact (text_configured job shown).symm
  constructor
  · intro _ fields member _
    simp only [shownTexts, List.mem_cons, List.not_mem_nil, or_false]
      at member
    rcases member with rfl | rfl | rfl
    · have notName : Field.configuredLabel ≠ .name := by decide
      rw [shows .label (by decide), Record.text, Record.text,
        syncedRecord_fixed notName (by decide)]
      rfl
    · have notName : Field.configuredAlias ≠ .name := by decide
      exact optional .configuredAlias .alias_ (by decide)
        (syncedRecord_fixed notName (by decide)) rfl
    · have notName : Field.configuredPageStatusIcon ≠ .name := by decide
      exact optional .configuredPageStatusIcon .pageStatusIcon (by decide)
        (syncedRecord_fixed notName (by decide)) rfl
  · intro _ _
    have notName : Field.configuredIcon ≠ .name := by decide
    have configured :
        (syncedRecord job order now localRecord inherited).text
            .configuredIcon =
          job.indicator.text .icon := by
      rw [Record.text, syncedRecord_fixed notName (by decide)]
      exact text_configuredIcon_syncCandidate _
    rw [configured, shows .icon (by decide), freshCandidate, Record.text,
      syncCandidate, collectorIndicatorCandidate]
    cases template : job.hasTemplate with
    | true => exact .inr ⟨template, rfl⟩
    | false =>
      left
      rw [Record.text]
      cases job.indicator .icon with
      | none => rfl
      | some value => exact Scalar.text_orEmpty value
  · intro some_
    rw [shows .icon (by decide), freshCandidate, Record.text,
      syncCandidate, collectorIndicatorCandidate]
    cases template : job.hasTemplate with
    | true => rfl
    | false =>
      exact absurd (text_iconTemplate_of_plain template) some_

end Unadorned

end DeveloperDashboard.Indicator
