import DeveloperDashboard.Indicator.SyncPlan

namespace DeveloperDashboard.Indicator

open Library Perl

/-!
# The plan after a write

A plan compares sixteen fields.  Once its record is written, the next plan
finds each of them settled: it is the candidate's again, or it is preserved.
Two kinds of stored records break this.
-/

variable {job : ActiveJob} {order : Nat} {now : Scalar}
variable {localRecord inherited : Option Record}

def nextPlan (job : ActiveJob) (order : Nat) (now : Scalar)
    (localRecord inherited : Option Record) :
    SyncPlan :=
  collectorSyncPlan job order
    (some (syncedRecord job order now localRecord inherited)) inherited

/-- The candidate of the plan that follows, when it heals nothing. -/
def nextCandidate (job : ActiveJob) (order : Nat) (now : Scalar)
    (localRecord inherited : Option Record) :
    Record :=
  syncCandidate job order
    (syncedRecord job order now localRecord inherited)

/-- A field that the plan after a write has nothing to say about. -/
def IsSettled (job : ActiveJob) (order : Nat) (now : Scalar)
    (localRecord inherited : Option Record) (field : Field) :
    Prop :=
  let record := syncedRecord job order now localRecord inherited
  let candidate := nextCandidate job order now localRecord inherited
  (field ∈ preserveExisting job false record candidate ∧
      (record field).isSome = true) ∨
    record.text field = candidate.text field

variable {field : Field}

theorem IsSettled.text_eq
    (settled : IsSettled job order now localRecord inherited field) :
    let record := syncedRecord job order now localRecord inherited
    let candidate := nextCandidate job order now localRecord inherited
    record.text field =
      (preserveFields (preserveExisting job false record candidate)
        record candidate).text field := by
  dsimp only
  rw [text_preserveFields]
  split
  · rfl
  · next other =>
      rcases settled with preserved | same
      · exact absurd preserved other
      · exact same

theorem isSettled_of_fixed (notName : field ≠ .name)
    (other :
      field ∉
        [Field.status, .updatedAt, .stale, .label, .alias_,
          .pageStatusIcon, .icon, .iconTemplate])
    (alike :
      ∀ existing next : Record,
        next field = syncCandidate job order existing field →
          syncCandidate job order next field =
            syncCandidate job order existing field) :
    IsSettled job order now localRecord inherited field := by
  have written :
      syncedRecord job order now localRecord inherited field =
        syncCandidate job order
          (effectiveExisting job localRecord inherited) field :=
    syncedRecord_fixed notName other
  right
  rw [nextCandidate, Record.text, Record.text, alike _ _ written, written]

section Stored

variable
  (storedLocal :
    ∀ record, localRecord = some record → IsStored job.directory record)
  (storedInherited :
    ∀ record, inherited = some record → IsStored job.directory record)

include storedLocal in
theorem isSettled_status :
    IsSettled job order now localRecord inherited .status := by
  left
  refine ⟨mem_preserveExisting_iff.mpr (.inl ⟨rfl, by decide⟩), ?_⟩
  refine Record.isSome_of_text_ne ?_
  rw [text_status_syncedRecord storedLocal, text_status_syncCandidate]
  split
  · decide
  · assumption

include storedLocal storedInherited in
theorem isSettled_label :
    IsSettled job order now localRecord inherited .label := by
  have fields : (Field.configuredLabel, Field.label) ∈ shownFields := by
    simp [shownFields]
  have notName : Field.configuredLabel ≠ .name := by decide
  have configured :
      syncedRecord job order now localRecord inherited .configuredLabel =
        some job.label :=
    syncedRecord_fixed notName (by decide)
  refine shown_settled storedLocal storedInherited fields
    (fun icon => absurd icon (by decide)) ?_ ?_
    (isSome_syncedRecord rfl) rfl rfl
  · rw [Record.text, configured]
    rfl
  · rw [configured]
    rfl

include storedLocal storedInherited in
theorem isSettled_optional {configured shown : Field}
    (fields : (configured, shown) ∈ shownFields)
    (notName : configured ≠ .name)
    (other :
      configured ∉
        [Field.status, .updatedAt, .stale, .label, .alias_,
          .pageStatusIcon, .icon, .iconTemplate])
    (notIcon : shown ≠ .icon)
    (isConfigured :
      ∀ existing,
        syncCandidate job order existing configured =
          some (job.configured shown))
    (isShown :
      ∀ existing,
        syncCandidate job order existing shown =
          (job.indicator shown).or (existing shown)) :
    IsSettled job order now localRecord inherited shown := by
  cases declared : job.indicator shown with
  | none =>
    right
    rw [nextCandidate, Record.text, Record.text, isShown, declared,
      Option.none_or]
  | some value =>
    have shownAs (existing : Record) :
        syncCandidate job order existing shown = some value := by
      rw [isShown, declared, Option.some_or]
    have written :
        syncedRecord job order now localRecord inherited configured =
          some (job.configured shown) := by
      rw [syncedRecord_fixed notName other, isConfigured]
    refine shown_settled storedLocal storedInherited fields
      (fun icon => absurd icon notIcon) ?_ ?_ ?_ ?_ ?_
    · rw [nextCandidate, Record.text, Record.text, written, isConfigured]
    · rw [written]
      rfl
    · refine isSome_syncedRecord ?_
      rw [shownAs]
      rfl
    · rw [nextCandidate, Record.text, Record.text, shownAs, isConfigured,
        ActiveJob.configured, declared]
      exact (Scalar.text_orEmpty value).symm
    · rw [nextCandidate, Record.text, Record.text, shownAs, shownAs]

include storedLocal storedInherited in
theorem isSettled_icon (noTemplate : job.hasTemplate = false) :
    IsSettled job order now localRecord inherited .icon := by
  have fields : (Field.configuredIcon, Field.icon) ∈ shownFields := by
    simp [shownFields]
  have notName : Field.configuredIcon ≠ .name := by decide
  have isConfigured (existing : Record) :
      syncCandidate job order existing .configuredIcon =
        some (job.configured .icon) := by
    rw [syncCandidate, collectorIndicatorCandidate, noTemplate]
    rfl
  have isShown (existing : Record) :
      syncCandidate job order existing .icon =
        (job.indicator .icon).map Scalar.orEmpty := by
    rw [syncCandidate, collectorIndicatorCandidate, noTemplate]
    rfl
  have asConfigured (existing : Record) :
      (syncCandidate job order existing).text .icon =
        (job.configured .icon).text := by
    rw [Record.text, isShown, ActiveJob.configured]
    cases job.indicator .icon with
    | none => rfl
    | some value => rfl
  have written :
      syncedRecord job order now localRecord inherited .configuredIcon =
        some (job.configured .icon) := by
    rw [syncedRecord_fixed notName (by decide), isConfigured]
  cases icon :
      syncedRecord job order now localRecord inherited .icon with
  | none =>
    -- no icon was written, so the job does not declare one
    right
    cases declared : job.indicator .icon with
    | none =>
      rw [nextCandidate, Record.text, Record.text, icon, isShown, declared]
      rfl
    | some value =>
      have given :
          (syncedRecord job order now localRecord inherited
            .icon).isSome = true := by
        refine isSome_syncedRecord ?_
        rw [isShown, declared]
        rfl
      rw [icon] at given
      contradiction
  | some value =>
    refine shown_settled storedLocal storedInherited fields
      (fun _ => noTemplate) ?_ ?_ ?_ ?_ ?_
    · rw [nextCandidate, Record.text, Record.text, written, isConfigured]
    · rw [written]
      rfl
    · rw [icon]
      rfl
    · rw [nextCandidate, asConfigured, Record.text, isConfigured]
      rfl
    · rw [nextCandidate, asConfigured, asConfigured]

end Stored

theorem iconTemplate_syncCandidate_of_plain
    (noTemplate : job.hasTemplate = false) (existing : Record) :
    syncCandidate job order existing .iconTemplate = none := by
  rw [syncCandidate, collectorIndicatorCandidate, noTemplate]
  rfl

theorem text_iconTemplate_of_plain (noTemplate : job.hasTemplate = false) :
    (syncedRecord job order now localRecord inherited).text
      .iconTemplate = [] := by
  have notName : Field.iconTemplate ≠ .name := by decide
  rw [text_syncedRecord notName (by decide)]
  dsimp only
  split
  · next preserved =>
      exfalso
      rcases mem_preserveExisting_iff.mp preserved.1 with
        ⟨-, member⟩ | ⟨-, configured, member, -⟩ | ⟨defined, -⟩
      · simp at member
      · simp [shownFields] at member
      · change Record.defines (syncCandidate _ _ _) _ = true at defined
        rw [Record.defines,
          iconTemplate_syncCandidate_of_plain noTemplate] at defined
        contradiction
  · change Record.text (syncCandidate _ _ _) _ = _
    rw [Record.text, iconTemplate_syncCandidate_of_plain noTemplate]
    rfl

theorem isSettled_iconTemplate (noTemplate : job.hasTemplate = false) :
    IsSettled job order now localRecord inherited .iconTemplate := by
  right
  rw [text_iconTemplate_of_plain noTemplate, nextCandidate, Record.text,
    iconTemplate_syncCandidate_of_plain noTemplate]
  rfl

theorem Record.defines_of_text_ne
    {record : Record} (text : record.text field ≠ []) :
    record.defines field = true := by
  unfold Record.text at text
  unfold Record.defines
  cases found : record field with
  | none => rw [found] at text; exact absurd rfl text
  | some value =>
    rw [found] at text
    cases value with
    | null => exact absurd rfl text
    | boolean value => rfl
    | number text => rfl
    | string text => rfl

theorem text_icon_of_hasTemplate (template : job.hasTemplate = true) :
    job.indicator.text .icon ≠ [] := by
  intro empty
  rw [ActiveJob.hasTemplate, empty] at template
  contradiction

theorem text_iconTemplate_syncCandidate
    (template : job.hasTemplate = true) (existing : Record) :
    (syncCandidate job order existing).text .iconTemplate =
      job.indicator.text .icon := by
  rw [Record.text, syncCandidate, collectorIndicatorCandidate,
    if_pos template]
  rfl

/-- A written record has the template of its job, unless it had another. -/
theorem text_iconTemplate_syncedRecord (template : job.hasTemplate = true)
    (agrees : ¬ HasTemplateConflict job localRecord inherited) :
    (syncedRecord job order now localRecord inherited).text
        .iconTemplate =
      job.indicator.text .icon := by
  have notName : Field.iconTemplate ≠ .name := by decide
  rw [text_syncedRecord notName (by decide)]
  dsimp only
  split
  · next preserved =>
      obtain ⟨member, exists_⟩ := preserved
      have same :
          (effectiveExisting job localRecord inherited).text
              .iconTemplate =
            job.indicator.text .icon := by
        rcases mem_preserveExisting_iff.mp member with
          ⟨-, member⟩ | ⟨-, configured, member, -⟩ | ⟨-, -, same, -⟩
        · simp at member
        · simp [shownFields] at member
        · exact same.trans
            (text_iconTemplate_syncCandidate template _)
      rcases effectiveExisting_cases job localRecord inherited with
        ⟨-, none_, -⟩ | ⟨-, here⟩ | ⟨none_ | healed, there⟩
      · rw [none_] at exists_
        contradiction
      · rw [here]
        exact same
      · rw [none_] at exists_
        contradiction
      · obtain ⟨live, heals⟩ := Option.isSome_iff_exists.mp healed
        obtain ⟨missing, found, isLive⟩ := healedFrom_eq_some_iff.mp heals
        have isEffective :
            effectiveExisting job localRecord inherited = live :=
          Option.some.inj (there.symm.trans found)
        rw [isEffective] at same
        cases here : localRecord with
        | none => rw [here] at exists_; contradiction
        | some placeholder =>
          rw [here] at missing exists_
          by_contra other
          exact agrees
            ⟨placeholder, live, here, found, missing, isLive, template,
              same, exists_, other⟩
  · exact text_iconTemplate_syncCandidate template _

/-- Such a record keeps its template, and the icon rendered from it. -/
theorem isSettled_template (template : job.hasTemplate = true)
    (agrees : ¬ HasTemplateConflict job localRecord inherited)
    (icons : field ∈ [Field.icon, .iconTemplate]) :
    IsSettled job order now localRecord inherited field := by
  have own :
      (syncedRecord job order now localRecord inherited).text
          .iconTemplate =
        job.indicator.text .icon :=
    text_iconTemplate_syncedRecord template agrees
  have given :
      (syncedRecord job order now localRecord inherited).text
        .iconTemplate ≠ [] := by
    rw [own]
    exact text_icon_of_hasTemplate template
  have candidate :
      (nextCandidate job order now localRecord inherited).text
          .iconTemplate =
        job.indicator.text .icon :=
    text_iconTemplate_syncCandidate template _
  left
  constructor
  · refine mem_preserveExisting_iff.mpr (.inr (.inr ⟨?_, ?_, ?_, icons⟩))
    · refine Record.defines_of_text_ne ?_
      rw [candidate]
      exact text_icon_of_hasTemplate template
    · exact Record.defines_of_text_ne given
    · rw [own, candidate]
  · rcases List.mem_cons.mp icons with rfl | single
    · refine isSome_syncedRecord ?_
      rw [syncCandidate, collectorIndicatorCandidate, if_pos template]
      rfl
    · rw [List.mem_singleton.mp single]
      exact Record.isSome_of_text_ne given

section Stored

variable
  (storedLocal :
    ∀ record, localRecord = some record → IsStored job.directory record)
  (storedInherited :
    ∀ record, inherited = some record → IsStored job.directory record)

include storedLocal storedInherited in
theorem isSettled (agrees : ¬ HasTemplateConflict job localRecord inherited)
    (matched : field ∈ matchedFields) :
    IsSettled job order now localRecord inherited field := by
  have constant (field : Field) (notName : field ≠ .name)
      (other :
        field ∉
          [Field.status, .updatedAt, .stale, .label, .alias_,
            .pageStatusIcon, .icon, .iconTemplate])
      (alike :
        ∀ existing next : Record,
          syncCandidate job order next field =
            syncCandidate job order existing field) :
      IsSettled job order now localRecord inherited field :=
    isSettled_of_fixed notName other fun existing next _ =>
      alike existing next
  simp only [matchedFields, List.mem_cons, List.not_mem_nil, or_false]
    at matched
  rcases matched with
    rfl | rfl | rfl | rfl | rfl | rfl | rfl | rfl | rfl | rfl | rfl | rfl |
      rfl | rfl | rfl | rfl
  · exact .inr rfl
  · exact isSettled_label storedLocal storedInherited
  · have fields : (Field.configuredAlias, Field.alias_) ∈ shownFields := by
      simp [shownFields]
    exact isSettled_optional storedLocal storedInherited fields
      (by decide) (by decide) (by decide) (fun _ => rfl) fun _ => rfl
  · cases template : job.hasTemplate with
    | false => exact isSettled_icon storedLocal storedInherited template
    | true => exact isSettled_template template agrees (by decide)
  · cases template : job.hasTemplate with
    | false => exact isSettled_iconTemplate template
    | true => exact isSettled_template template agrees (by decide)
  · exact constant .configuredLabel (by decide) (by decide) fun _ _ => rfl
  · exact constant .configuredAlias (by decide) (by decide) fun _ _ => rfl
  · exact constant .configuredIcon (by decide) (by decide) fun _ _ => rfl
  · exact constant .configuredPageStatusIcon (by decide) (by decide)
      fun _ _ => rfl
  · exact isSettled_status storedLocal
  · refine isSettled_of_fixed (by decide) (by decide) fun existing next same => ?_
    change (job.indicator .priority).or (next .priority) = _
    rw [same]
    change (job.indicator .priority).or
        ((job.indicator .priority).or (existing .priority)) =
      (job.indicator .priority).or (existing .priority)
    cases job.indicator .priority <;> rfl
  · refine isSettled_of_fixed (by decide) (by decide) fun existing next same => ?_
    change ((job.indicator .promptVisible).or (next .promptVisible)).or
        (some (.number ['1'])) = _
    rw [same]
    change ((job.indicator .promptVisible).or
        (((job.indicator .promptVisible).or (existing .promptVisible)).or
          (some (.number ['1'])))).or (some (.number ['1'])) =
      ((job.indicator .promptVisible).or (existing .promptVisible)).or
        (some (.number ['1']))
    cases job.indicator .promptVisible <;>
      cases existing .promptVisible <;> rfl
  · have fields : (Field.configuredPageStatusIcon, Field.pageStatusIcon) ∈ shownFields := by
      simp [shownFields]
    exact isSettled_optional storedLocal storedInherited fields
      (by decide) (by decide) (by decide) (fun _ => rfl) fun _ => rfl
  · exact constant .collectorName (by decide) (by decide) fun _ _ => rfl
  · exact constant .collectorOrder (by decide) (by decide) fun _ _ => rfl
  · exact constant .managedByCollector (by decide) (by decide) fun _ _ => rfl

include storedLocal storedInherited in
theorem needsWrite_nextPlan_of_settles
    (agrees : ¬ HasTemplateConflict job localRecord inherited)
    (covered : ¬ CoversLive job localRecord inherited) :
    (nextPlan job order now localRecord inherited).needsWrite = false := by
  have unhealed :
      healedFrom job
          (some (syncedRecord job order now localRecord inherited))
          inherited =
        none :=
    healedFrom_syncedRecord storedLocal storedInherited covered
  rw [nextPlan, collectorSyncPlan_of_unhealed unhealed,
    Bool.not_eq_false', indicatorMatches_iff]
  intro field matched
  have settled : IsSettled job order now localRecord inherited field :=
    isSettled storedLocal storedInherited agrees matched
  exact .inr settled.text_eq

include storedInherited in
theorem needsWrite_of_healed {live : Record}
    (heals : healedFrom job localRecord inherited = some live) :
    (collectorSyncPlan job order localRecord inherited).needsWrite =
      true := by
  obtain ⟨missing, found, isLive⟩ := healedFrom_eq_some_iff.mp heals
  cases here : localRecord with
  | none => rw [here] at missing; contradiction
  | some placeholder =>
    rw [here] at missing heals
    have effective :
        effectiveExisting job (some placeholder) inherited = live := by
      rw [effectiveExisting, heals]
      rfl
    have notPreserved :
        Field.status ∉
          preserveExisting job true live
            (syncCandidate job order live) := by
      intro preserved
      rcases mem_preserveExisting_iff.mp preserved with
        ⟨unhealed, -⟩ | ⟨-, configured, member, -⟩ | ⟨-, -, -, member⟩
      · contradiction
      · simp [shownFields] at member
      · simp at member
    unfold collectorSyncPlan
    dsimp only
    rw [effective, heals, Option.isSome_some, Bool.not_eq_true',
      Bool.eq_false_iff]
    intro same
    have isMatched : Field.status ∈ matchedFields := by decide
    have status := text_of_indicatorMatches same isMatched (by decide)
    rw [text_preserveFields, if_neg fun both => notPreserved both.1,
      text_status_syncCandidate,
      if_neg (storedInherited live found).status] at status
    have live_ : hasMissingStatus live = false :=
      (isLiveOf_iff.mp isLive).2.2
    have missing_ : hasMissingStatus placeholder = true :=
      ((Bool.and_eq_true _ _).mp missing).2
    change placeholder.text .status = live.text .status at status
    rw [hasMissingStatus, status, ← hasMissingStatus, live_] at missing_
    contradiction

include storedLocal storedInherited in
theorem needsWrite_of_hasTemplateConflict
    (conflict : HasTemplateConflict job localRecord inherited) :
    (collectorSyncPlan job order localRecord inherited).needsWrite =
        true ∧
      (nextPlan job order now localRecord inherited).needsWrite =
        true := by
  obtain ⟨placeholder, live, here, found, missing, isLive, template, same,
    exists_, other⟩ := conflict
  have heals : healedFrom job localRecord inherited = some live := by
    refine healedFrom_eq_some_iff.mpr ⟨?_, found, isLive⟩
    rw [here]
    exact missing
  have effective : effectiveExisting job localRecord inherited = live := by
    rw [effectiveExisting, heals]
    rfl
  have unhealed :
      healedFrom job
          (some (syncedRecord job order now localRecord inherited))
          inherited =
        none := by
    refine if_neg fun missing_ => ?_
    have isMissing :
        hasMissingStatus
          (syncedRecord job order now localRecord inherited) = true :=
      ((Bool.and_eq_true _ _).mp missing_).2
    rw [hasMissingStatus, text_status_syncedRecord storedLocal, effective,
      text_status_syncCandidate, if_neg (storedInherited live found).status,
      ← hasMissingStatus, (isLiveOf_iff.mp isLive).2.2] at isMissing
    contradiction
  have kept :
      (syncedRecord job order now localRecord inherited).text
          .iconTemplate =
        placeholder.text .iconTemplate := by
    have notName : Field.iconTemplate ≠ .name := by decide
    have preserved :
        Field.iconTemplate ∈
          (collectorSyncPlan job order localRecord
            inherited).preserveExisting := by
      have candidate :
          (syncCandidate job order live).text .iconTemplate =
            job.indicator.text .icon :=
        text_iconTemplate_syncCandidate template live
      unfold collectorSyncPlan
      dsimp only
      rw [effective]
      refine mem_preserveExisting_iff.mpr
        (.inr (.inr ⟨?_, ?_, ?_, by decide⟩))
      · refine Record.defines_of_text_ne ?_
        rw [candidate]
        exact text_icon_of_hasTemplate template
      · refine Record.defines_of_text_ne ?_
        rw [same]
        exact text_icon_of_hasTemplate template
      · rw [same, candidate]
    have isSome :
        ((localRecord.getD Record.empty) .iconTemplate).isSome = true := by
      rw [here]
      exact exists_
    rw [text_syncedRecord notName (by decide)]
    refine (if_pos ⟨preserved, isSome⟩).trans ?_
    rw [here]
    rfl
  refine ⟨needsWrite_of_healed storedInherited heals, ?_⟩
  rw [nextPlan, collectorSyncPlan_of_unhealed unhealed, Bool.not_eq_true',
    Bool.eq_false_iff]
  intro matches_
  have isMatched : Field.iconTemplate ∈ matchedFields := by decide
  have text := text_of_indicatorMatches matches_ isMatched (by decide)
  have notPreserved :
      Field.iconTemplate ∉
        preserveExisting job false
          (syncedRecord job order now localRecord inherited)
          (syncCandidate job order
            (syncedRecord job order now localRecord inherited)) := by
    intro preserved
    rcases mem_preserveExisting_iff.mp preserved with
      ⟨-, member⟩ | ⟨-, configured, member, -⟩ | ⟨-, -, agree, -⟩
    · simp at member
    · simp [shownFields] at member
    · rw [kept, text_iconTemplate_syncCandidate template] at agree
      exact other agree
  rw [text_preserveFields, if_neg fun both => notPreserved both.1, kept,
    text_iconTemplate_syncCandidate template] at text
  exact other text

include storedLocal storedInherited in
/-- A record over a live one becomes a placeholder, and is written again. -/
theorem needsWrite_of_coversLive
    (covers : CoversLive job localRecord inherited) :
    (collectorSyncPlan job order localRecord inherited).needsWrite =
        true ∧
      (nextPlan job order now localRecord inherited).needsWrite =
        true := by
  obtain ⟨unmanaged, live, here, found, notManaged, missing, isLive⟩ :=
    covers
  have unhealed : healedFrom job (some unmanaged) inherited = none := by
    refine if_neg fun missing_ => ?_
    have managed := ((Bool.and_eq_true _ _).mp missing_).1
    rw [notManaged] at managed
    contradiction
  have effective :
      effectiveExisting job localRecord inherited = unmanaged := by
    rw [here, effectiveExisting, unhealed]
    rfl
  constructor
  · rw [here, collectorSyncPlan_of_unhealed unhealed, Bool.not_eq_true',
      Bool.eq_false_iff]
    intro matches_
    have isMatched : Field.managedByCollector ∈ matchedFields := by decide
    have text := text_of_indicatorMatches matches_ isMatched (by decide)
    rw [text_preserveFields,
      if_neg fun both =>
        notMem_preserveExisting (by decide) both.1] at text
    rw [Record.truthy, text] at notManaged
    contradiction
  · have heals :
        healedFrom job
            (some (syncedRecord job order now localRecord inherited))
            inherited =
          some live := by
      refine healedFrom_eq_some_iff.mpr ⟨?_, found, isLive⟩
      refine (Bool.and_eq_true _ _).mpr ⟨truthy_managed_syncedRecord, ?_⟩
      change hasMissingStatus _ = true
      rw [hasMissingStatus, text_status_syncedRecord storedLocal, effective,
        text_status_syncCandidate,
        if_neg (storedLocal unmanaged here).status]
      exact missing
    exact needsWrite_of_healed storedInherited heals

include storedLocal storedInherited in
variable (order now) in
theorem needsWrite_of_stuck
    (stuck :
      HasTemplateConflict job localRecord inherited ∨
        CoversLive job localRecord inherited) :
    (collectorSyncPlan job order localRecord inherited).needsWrite =
        true ∧
      (nextPlan job order now localRecord inherited).needsWrite =
        true := by
  rcases stuck with conflict | covers
  · exact needsWrite_of_hasTemplateConflict storedLocal storedInherited
      conflict
  · exact needsWrite_of_coversLive storedLocal storedInherited covers

include storedLocal storedInherited in
theorem needsWrite_after_iff :
    (collectorSyncPlan job order
        (if (collectorSyncPlan job order localRecord inherited).needsWrite
        then some (syncedRecord job order now localRecord inherited)
        else localRecord)
        inherited).needsWrite = false ↔
      ¬ HasTemplateConflict job localRecord inherited ∧
        ¬ CoversLive job localRecord inherited := by
  constructor
  · intro settled
    rw [← not_or]
    intro stuck
    obtain ⟨writes, again⟩ :=
      needsWrite_of_stuck order now storedLocal storedInherited stuck
    rw [if_pos writes, ← nextPlan, again] at settled
    contradiction
  · rintro ⟨agrees, covered⟩
    cases writes :
        (collectorSyncPlan job order localRecord inherited).needsWrite with
    | true =>
      exact needsWrite_nextPlan_of_settles storedLocal storedInherited
        agrees covered
    | false => exact writes

end Stored

end DeveloperDashboard.Indicator
