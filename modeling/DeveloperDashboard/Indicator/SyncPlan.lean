import DeveloperDashboard.Indicator.IndicatorStore

namespace DeveloperDashboard.Indicator

open Library Perl

/-!
# The plan of a sync

Which fields a plan preserves, what the record has that is written after it,
and that the next plan finds nothing left to write, unless a stored record
gets in its way.
-/

variable {job : ActiveJob} {order : Nat} {now : Scalar}
variable {localRecord inherited : Option Record}

variable {candidate : Record}

theorem indicatorMatches_iff {existing : Record} :
    indicatorMatches existing candidate = true ↔
      ∀ field ∈ matchedFields,
        (field = .collectorOrder ∧ existing.text field = []) ∨
          existing.text field = candidate.text field := by
  simp [indicatorMatches]

variable {field : Field}

theorem text_of_indicatorMatches {existing : Record}
    (same : indicatorMatches existing candidate = true)
    (matched : field ∈ matchedFields) (other : field ≠ .collectorOrder) :
    existing.text field = candidate.text field :=
  (indicatorMatches_iff.mp same field matched).resolve_left
    fun order => other order.1

variable {healed : Bool}

theorem mem_preserveExisting_iff {effective : Record} :
    field ∈ preserveExisting job healed effective candidate ↔
      (healed = false ∧ field ∈ [Field.status, .updatedAt, .stale]) ∨
        (isLiveOf job effective = true ∧
          ∃ configured, (configured, field) ∈ shownFields ∧
            isOverridden effective candidate configured field = true) ∨
        (candidate.defines .iconTemplate = true ∧
          effective.defines .iconTemplate = true ∧
          effective.text .iconTemplate = candidate.text .iconTemplate ∧
          field ∈ [Field.icon, .iconTemplate]) := by
  unfold preserveExisting
  rw [List.mem_append, List.mem_append, or_assoc]
  refine or_congr ?_ (or_congr ?_ ?_)
  · cases healed <;> simp
  · cases isLiveOf job effective with
    | false => simp
    | true => simp
  · split
    · next template => simp [template]
    · next other =>
        refine iff_of_false List.not_mem_nil ?_
        rintro ⟨first, second, third, -⟩
        exact other ⟨first, second, third⟩

theorem mem_of_mem_preserveExisting {effective : Record}
    (preserved :
      field ∈ preserveExisting job healed effective candidate) :
    field ∈
      [Field.status, .updatedAt, .stale, .label, .alias_, .pageStatusIcon,
        .icon, .iconTemplate] := by
  rcases mem_preserveExisting_iff.mp preserved with
    ⟨-, member⟩ | ⟨-, configured, member, -⟩ | ⟨-, -, -, member⟩
  · simp only [List.mem_cons, List.not_mem_nil, or_false] at member ⊢
    tauto
  · simp only [shownFields, List.mem_cons, List.not_mem_nil, or_false,
      Prod.mk.injEq] at member ⊢
    tauto
  · simp only [List.mem_cons, List.not_mem_nil, or_false] at member ⊢
    tauto

theorem notMem_preserveExisting {effective : Record}
    (other :
      field ∉
        [Field.status, .updatedAt, .stale, .label, .alias_,
          .pageStatusIcon, .icon, .iconTemplate]) :
    field ∉ preserveExisting job healed effective candidate :=
  fun preserved => other (mem_of_mem_preserveExisting preserved)

theorem text_syncedRecord
    (notName : field ≠ .name) (notTime : field ≠ .updatedAt) :
    (syncedRecord job order now localRecord inherited).text field =
      let plan := collectorSyncPlan job order localRecord inherited
      if field ∈ plan.preserveExisting ∧
          ((localRecord.getD Record.empty) field).isSome = true then
        (localRecord.getD Record.empty).text field
      else plan.candidate.text field := by
  dsimp only
  rw [← text_preserveFields]
  unfold syncedRecord savedRecord Record.text
  cases field <;> first | rfl | contradiction

theorem syncedRecord_fixed (notName : field ≠ .name)
    (other :
      field ∉
        [Field.status, .updatedAt, .stale, .label, .alias_,
          .pageStatusIcon, .icon, .iconTemplate]) :
    syncedRecord job order now localRecord inherited field =
      syncCandidate job order
        (effectiveExisting job localRecord inherited) field := by
  have notTime : field ≠ .updatedAt := by
    rintro rfl
    exact other (by decide)
  have fixed :
      preserveFields
          (collectorSyncPlan job order localRecord inherited).preserveExisting
          (localRecord.getD Record.empty)
          (syncCandidate job order
            (effectiveExisting job localRecord inherited)) field =
        syncCandidate job order
          (effectiveExisting job localRecord inherited) field :=
    if_neg (notMem_preserveExisting other)
  rw [← fixed]
  cases field <;> first | rfl | contradiction

variable {record : Record}

section Stored

variable
  (storedLocal :
    ∀ record, localRecord = some record → IsStored job.directory record)
  (storedInherited :
    ∀ record, inherited = some record → IsStored job.directory record)

theorem effectiveExisting_cases
    (job : ActiveJob) (localRecord inherited : Option Record) :
    (effectiveExisting job localRecord inherited = Record.empty ∧
        localRecord = none ∧ inherited = none) ∨
      (healedFrom job localRecord inherited = none ∧
        localRecord =
          some (effectiveExisting job localRecord inherited)) ∨
      ((localRecord = none ∨
          (healedFrom job localRecord inherited).isSome = true) ∧
        inherited =
          some (effectiveExisting job localRecord inherited)) := by
  unfold effectiveExisting
  cases healed : healedFrom job localRecord inherited with
  | some record =>
    refine .inr (.inr ⟨.inr rfl, ?_⟩)
    unfold healedFrom at healed
    split at healed
    · exact (Option.filter_eq_some_iff.mp healed).1
    · contradiction
  | none =>
    cases localRecord with
    | some record => exact .inr (.inl ⟨rfl, rfl⟩)
    | none =>
      cases inherited with
      | some record => exact .inr (.inr ⟨.inl rfl, rfl⟩)
      | none => exact .inl ⟨rfl, rfl, rfl⟩

include storedLocal storedInherited in
theorem text_status_effectiveExisting :
    (effectiveExisting job localRecord inherited).text .status = [] →
      localRecord = none ∧ inherited = none := by
  intro none_
  rcases effectiveExisting_cases job localRecord inherited with
    ⟨-, both⟩ | ⟨-, here⟩ | ⟨-, there⟩
  · exact both
  · exact absurd none_ (storedLocal _ here).status
  · exact absurd none_ (storedInherited _ there).status

include storedLocal in
theorem text_status_syncedRecord :
    (syncedRecord job order now localRecord inherited).text .status =
      (syncCandidate job order
        (effectiveExisting job localRecord inherited)).text .status := by
  have notName : Field.status ≠ .name := by decide
  rw [text_syncedRecord notName (by decide)]
  dsimp only
  split
  · next preserved =>
      obtain ⟨member, exists_⟩ := preserved
      have unhealed : healedFrom job localRecord inherited = none := by
        rcases mem_preserveExisting_iff.mp member with
          ⟨none_, -⟩ | ⟨-, configured, shown, -⟩ | ⟨-, -, -, icon⟩
        · rwa [Option.isSome_eq_false_iff, Option.isNone_iff_eq_none]
            at none_
        · simp [shownFields] at shown
        · simp at icon
      cases found : localRecord with
      | none => rw [found] at exists_; contradiction
      | some record =>
        have effective :
            effectiveExisting job (some record) inherited = record := by
          rw [effectiveExisting, ← found, unhealed, found]
          rfl
        rw [effective, text_status_syncCandidate,
          if_neg (storedLocal record found).status]
        rfl
  · rfl

theorem truthy_managed_syncedRecord :
    (syncedRecord job order now localRecord inherited).truthy
      .managedByCollector = true := by
  have notName : Field.managedByCollector ≠ .name := by decide
  rw [Record.truthy, Record.text, syncedRecord_fixed notName (by decide)]
  rfl

theorem text_collectorName_syncedRecord :
    (syncedRecord job order now localRecord inherited).text
      .collectorName = job.name.text := by
  have notName : Field.collectorName ≠ .name := by decide
  rw [Record.text, syncedRecord_fixed notName (by decide)]
  rfl

def hasMissingStatus (record : Record) : Bool :=
  decide ((record.text .status).map Char.toLower = "missing".toList)

theorem isLiveOf_iff :
    isLiveOf job record = true ↔
      record.truthy .managedByCollector = true ∧
        record.trueText .collectorName = job.name.text ∧
          hasMissingStatus record = false := by
  unfold isLiveOf isPlaceholderMissing hasMissingStatus
  simp only [Bool.and_eq_true, decide_eq_true_eq, Bool.not_eq_true',
    Bool.and_eq_false_iff, and_assoc]
  constructor
  · rintro ⟨managed, same, unmanaged | status⟩
    · rw [managed] at unmanaged
      contradiction
    · exact ⟨managed, same, status⟩
  · rintro ⟨managed, same, status⟩
    exact ⟨managed, same, .inr status⟩

include storedLocal storedInherited in
theorem isLiveOf_syncedRecord
    (live :
      isLiveOf job (effectiveExisting job localRecord inherited) = true) :
    isLiveOf job
      (syncedRecord job order now localRecord inherited) = true := by
  obtain ⟨-, same, status⟩ := isLiveOf_iff.mp live
  refine isLiveOf_iff.mpr ⟨truthy_managed_syncedRecord, ?_, ?_⟩
  · have named : isTrue job.name.text = true := by
      unfold Record.trueText at same
      split at same
      · next isTrue => rw [← same]; exact isTrue
      · exact absurd same.symm job.named
    rw [Record.trueText, Record.truthy, text_collectorName_syncedRecord,
      if_pos named]
  · have given :
        (effectiveExisting job localRecord inherited).text .status ≠ [] := by
      intro none_
      obtain ⟨noLocal, noInherited⟩ :=
        text_status_effectiveExisting storedLocal storedInherited none_
      rw [noLocal, noInherited] at same
      exact job.named same.symm
    rw [hasMissingStatus, text_status_syncedRecord storedLocal,
      text_status_syncCandidate, if_neg given]
    exact status

/--
A placeholder whose icon belongs to another template, in front of a live
record that was rendered from the template of the job.
-/
def HasTemplateConflict
    (job : ActiveJob) (localRecord inherited : Option Record) : Prop :=
  ∃ placeholder live,
    localRecord = some placeholder ∧ inherited = some live ∧
      isPlaceholderMissing placeholder = true ∧
      isLiveOf job live = true ∧
      job.hasTemplate = true ∧
      live.text .iconTemplate = job.indicator.text .icon ∧
      (placeholder .iconTemplate).isSome = true ∧
      placeholder.text .iconTemplate ≠ job.indicator.text .icon

/--
A record of no collector that says `missing`, in front of a live record of the
job: it becomes a placeholder once it is managed.
-/
def CoversLive
    (job : ActiveJob) (localRecord inherited : Option Record) : Prop :=
  ∃ unmanaged live,
    localRecord = some unmanaged ∧ inherited = some live ∧
      unmanaged.truthy .managedByCollector = false ∧
      hasMissingStatus unmanaged = true ∧ isLiveOf job live = true

theorem healedFrom_eq_some_iff {live : Record} :
    healedFrom job localRecord inherited = some live ↔
      localRecord.any isPlaceholderMissing = true ∧
        inherited = some live ∧ isLiveOf job live = true := by
  unfold healedFrom
  split
  · next placeholder =>
      rw [Option.filter_eq_some_iff]
      exact ⟨fun found => ⟨placeholder, found⟩, fun found => found.2⟩
  · next other =>
      refine iff_of_false ?_ fun found => other found.1
      exact Option.some_ne_none live ∘ Eq.symm

include storedLocal storedInherited in
/-- The next plan heals nothing. -/
theorem healedFrom_syncedRecord
    (covered : ¬ CoversLive job localRecord inherited) :
    healedFrom job
        (some (syncedRecord job order now localRecord inherited))
        inherited =
      none := by
  rw [Option.eq_none_iff_forall_ne_some]
  intro live healed
  obtain ⟨placeholder, found, isLive⟩ := healedFrom_eq_some_iff.mp healed
  have notMissing := (isLiveOf_iff.mp isLive).2.2
  have missing :
      hasMissingStatus
        (syncedRecord job order now localRecord inherited) = true :=
    ((Bool.and_eq_true _ _).mp placeholder).2
  rw [hasMissingStatus, text_status_syncedRecord storedLocal,
    text_status_syncCandidate] at missing
  have given :
      (effectiveExisting job localRecord inherited).text .status ≠ [] := by
    intro none_
    rw [(text_status_effectiveExisting storedLocal storedInherited
      none_).2] at found
    contradiction
  rw [if_neg given] at missing
  rcases effectiveExisting_cases job localRecord inherited with
    ⟨-, -, none_⟩ | ⟨unhealed, here⟩ | ⟨-, there⟩
  · rw [none_] at found
    contradiction
  · refine covered ⟨_, live, here, found, ?_, missing, isLive⟩
    by_contra managed
    rw [Bool.not_eq_false] at managed
    have heals :
        healedFrom job localRecord inherited = some live := by
      refine healedFrom_eq_some_iff.mpr ⟨?_, found, isLive⟩
      rw [here]
      exact (Bool.and_eq_true _ _).mpr ⟨managed, missing⟩
    rw [unhealed] at heals
    contradiction
  · have same := Option.some.inj (found.symm.trans there)
    rw [← same] at missing
    rw [hasMissingStatus, missing] at notMissing
    contradiction

theorem collectorSyncPlan_of_unhealed
    (unhealed : healedFrom job (some record) inherited = none) :
    (collectorSyncPlan job order (some record) inherited).needsWrite =
      !indicatorMatches record
        (preserveFields
          (preserveExisting job false record
            (syncCandidate job order record))
          record (syncCandidate job order record)) := by
  unfold collectorSyncPlan effectiveExisting
  rw [unhealed]
  rfl

theorem mem_preserveExisting_of_overridden {configured shown : Field}
    (isLive : isLiveOf job record = true)
    (fields : (configured, shown) ∈ shownFields)
    (exists_ : (record configured).isSome = true)
    (same : record.text configured = candidate.text configured)
    (different : record.text shown ≠ candidate.text configured) :
    shown ∈ preserveExisting job healed record candidate := by
  refine mem_preserveExisting_iff.mpr
    (.inr (.inl ⟨isLive, configured, fields, ?_⟩))
  simp [isOverridden, exists_, same, different]

include storedLocal storedInherited in
theorem text_shown_syncedRecord {configured shown : Field}
    (fields : (configured, shown) ∈ shownFields)
    (noTemplate : shown = .icon → job.hasTemplate = false) :
    (syncedRecord job order now localRecord inherited).text shown =
        (syncCandidate job order
          (effectiveExisting job localRecord inherited)).text shown ∨
      isLiveOf job
        (syncedRecord job order now localRecord inherited) = true := by
  have notName : shown ≠ .name := by
    rintro rfl
    simp [shownFields] at fields
  have notTime : shown ≠ .updatedAt := by
    rintro rfl
    simp [shownFields] at fields
  rw [text_syncedRecord notName notTime]
  dsimp only
  split
  · next preserved =>
      refine .inr (isLiveOf_syncedRecord storedLocal storedInherited ?_)
      rcases mem_preserveExisting_iff.mp preserved.1 with
        ⟨-, member⟩ | ⟨isLive, -⟩ | ⟨template, -, -, member⟩
      · simp only [shownFields, List.mem_cons, List.not_mem_nil, or_false,
          Prod.mk.injEq] at fields member
        rcases fields with ⟨-, rfl⟩ | ⟨-, rfl⟩ | ⟨-, rfl⟩ | ⟨-, rfl⟩ <;>
          simp at member
      · exact isLive
      · exfalso
        have isIcon : shown = .icon := by
          simp only [shownFields, List.mem_cons, List.not_mem_nil,
            or_false, Prod.mk.injEq] at fields member
          rcases fields with ⟨-, rfl⟩ | ⟨-, rfl⟩ | ⟨-, rfl⟩ | ⟨-, rfl⟩
          · simp at member
          · simp at member
          · simp at member
          · rfl
        have none_ := noTemplate isIcon
        simp [syncCandidate, collectorIndicatorCandidate, Record.defines,
          none_] at template
  · exact .inl rfl

theorem isSome_syncedRecord
    (given :
      (syncCandidate job order
        (effectiveExisting job localRecord inherited) field).isSome = true) :
    (syncedRecord job order now localRecord inherited field).isSome =
      true := by
  have kept (preserve : List Field) (existing candidate : Record)
      (exists_ : (candidate field).isSome = true) :
      (preserveFields preserve existing candidate field).isSome = true := by
    unfold preserveFields
    split
    · rw [Option.isSome_or, exists_, Bool.or_true]
    · exact exists_
  unfold syncedRecord savedRecord
  cases field with
  | name => rfl
  | updatedAt => rw [Option.isSome_or, Option.isSome_some, Bool.or_true]
  | _ => exact kept _ _ _ given

theorem text_configured (job : ActiveJob) (field : Field) :
    (job.configured field).text = job.indicator.text field := by
  unfold ActiveJob.configured Record.text
  cases job.indicator field with
  | none => rfl
  | some value => exact Scalar.text_orEmpty value

include storedLocal storedInherited in
/-- A shown field is preserved by the next plan, or it is the candidate's. -/
theorem shown_settled {configured shown : Field}
    (fields : (configured, shown) ∈ shownFields)
    (noTemplate : shown = .icon → job.hasTemplate = false)
    (same :
      (syncedRecord job order now localRecord inherited).text configured =
        candidate.text configured)
    (exists_ :
      (syncedRecord job order now localRecord inherited configured).isSome =
        true)
    (written :
      (syncedRecord job order now localRecord inherited shown).isSome = true)
    (asConfigured :
      candidate.text shown = candidate.text configured)
    (asBefore :
      (syncCandidate job order
          (effectiveExisting job localRecord inherited)).text shown =
        candidate.text shown) :
    (shown ∈
          preserveExisting job false
            (syncedRecord job order now localRecord inherited) candidate ∧
        (syncedRecord job order now localRecord inherited shown).isSome =
          true) ∨
      (syncedRecord job order now localRecord inherited).text shown =
        candidate.text shown := by
  have asWritten :
      (syncedRecord job order now localRecord inherited).text shown =
          (syncCandidate job order
            (effectiveExisting job localRecord inherited)).text shown ∨
        isLiveOf job
          (syncedRecord job order now localRecord inherited) = true :=
    text_shown_syncedRecord storedLocal storedInherited fields noTemplate
  rcases asWritten with kept | isLive
  · exact .inr (kept.trans asBefore)
  · by_cases settled :
        (syncedRecord job order now localRecord inherited).text shown =
          candidate.text configured
    · exact .inr (settled.trans asConfigured.symm)
    · exact .inl
        ⟨mem_preserveExisting_of_overridden isLive fields exists_ same
          settled, written⟩

end Stored

end DeveloperDashboard.Indicator
