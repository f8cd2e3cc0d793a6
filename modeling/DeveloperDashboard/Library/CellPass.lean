import Mathlib.Data.List.Basic

namespace Library

/-!
# Passes over shared cells

A pass visits one cell for each of its jobs, and several jobs may visit one
cell.  A visit fails, or leaves the cell as it is, or reports a change to a
smaller value.  A preview visits the cells as they are at first, a commit
writes each change before the next visit.
-/

variable {Job Key Value Error Report : Type}

structure CellPass (Job Key Value Error Report : Type) where
  cell : Job → Key
  visit : Job → Value → Except Error (Option (Report × Value))
  size : Value → Nat
  reportCell : Report → Key
  reportSize : Report → Nat
  told :
    ∀ job value report smaller,
      visit job value = .ok (some (report, smaller)) →
        reportCell report = cell job ∧ reportSize report = size value
  shrinks :
    ∀ job value report smaller,
      visit job value = .ok (some (report, smaller)) →
        size smaller < size value

variable {cells current : Key → Value} {jobs rest : List Job}
  {reports : List Report} {report : Report} {value smaller : Value}
  {job : Job}

namespace CellPass

variable (pass : CellPass Job Key Value Error Report)

def told? (job : Job) (value : Value) : Except Error (Option Report) :=
  (pass.visit job value).map (Option.map Prod.fst)

def preview (cells : Key → Value) : List Job → Except Error (List Report)
  | [] => .ok []
  | job :: rest =>
    match pass.visit job (cells (pass.cell job)) with
    | .error error => .error error
    | .ok none => preview cells rest
    | .ok (some (report, _)) =>
      (preview cells rest).map (List.cons report)

/-- The reports of a pass that writes each change, and the cells after it. -/
def commit [DecidableEq Key] (cells : Key → Value) :
    List Job → Except Error (List Report × (Key → Value))
  | [] => .ok ([], cells)
  | job :: rest =>
    match pass.visit job (cells (pass.cell job)) with
    | .error error => .error error
    | .ok none => commit cells rest
    | .ok (some (report, smaller)) =>
      (commit (Function.update cells (pass.cell job) smaller) rest).map
        fun after => (report :: after.1, after.2)

def committed [DecidableEq Key] (cells : Key → Value) (jobs : List Job) :
    Except Error (List Report) :=
  (pass.commit cells jobs).map Prod.fst

/-- A job after one that changes its cell tells the same of the change. -/
def Undisturbed (cells : Key → Value) (jobs : List Job) : Prop :=
  jobs.Pairwise fun job later =>
    pass.cell later = pass.cell job →
      ∀ report smaller,
        pass.visit job (cells (pass.cell job)) =
            .ok (some (report, smaller)) →
          pass.told? later (cells (pass.cell job)) =
            pass.told? later smaller

/-- The cells of a commit, beside those of the preview. -/
def Shrunk (cells current : Key → Value) : Prop :=
  ∀ key, current key = cells key ∨
    pass.size (current key) < pass.size (cells key)

/-- Jobs whose cell is changed already tell the same of both values. -/
def Steady (cells current : Key → Value) (jobs : List Job) : Prop :=
  ∀ job ∈ jobs,
    pass.size (current (pass.cell job)) <
        pass.size (cells (pass.cell job)) →
      pass.told? job (cells (pass.cell job)) =
        pass.told? job (current (pass.cell job))

variable {pass}

theorem reportSize_of_mem_preview
    (returned : pass.preview cells jobs = .ok reports)
    (member : report ∈ reports) :
    pass.reportSize report = pass.size (cells (pass.reportCell report)) := by
  induction jobs generalizing reports with
  | nil =>
    obtain rfl : [] = reports := Except.ok.inj returned
    exact absurd member List.not_mem_nil
  | cons job rest ih =>
    rw [preview] at returned
    split at returned
    · cases returned
    · exact ih returned member
    · next changed =>
        cases later : pass.preview cells rest with
        | error error => rw [later] at returned; cases returned
        | ok others =>
          rw [later] at returned
          obtain rfl := Except.ok.inj returned
          rcases List.mem_cons.mp member with rfl | isLater
          · obtain ⟨cell, size⟩ := pass.told _ _ _ _ changed
            rw [cell, size]
          · exact ih later isLater

theorem exists_preview_iff {cells : Key → Value} {jobs : List Job} :
    (∃ reports, pass.preview cells jobs = .ok reports) ↔
      ∀ job ∈ jobs, ∃ change,
        pass.visit job (cells (pass.cell job)) = .ok change := by
  induction jobs with
  | nil => simp [preview]
  | cons job rest ih =>
    rw [List.forall_mem_cons, ← ih, preview]
    cases visited : pass.visit job (cells (pass.cell job)) with
    | error error => simp
    | ok change =>
      cases change with
      | none => simp
      | some change =>
        cases pass.preview cells rest <;> simp [Except.map]

theorem not_mem_preview {key : Key}
    (returned : pass.preview cells jobs = .ok reports)
    (cell : pass.reportCell report = key)
    (size : pass.reportSize report = pass.size value)
    (smaller : pass.size value < pass.size (cells key)) :
    report ∉ reports := by
  intro member
  have whole := reportSize_of_mem_preview returned member
  rw [cell, size] at whole
  omega

theorem undisturbed_of_idle
    (idle : pass.visit job (cells (pass.cell job)) = .ok none) :
    pass.Undisturbed cells (job :: rest) ↔
      pass.Undisturbed cells rest := by
  unfold Undisturbed
  rw [List.pairwise_cons]
  refine and_iff_right fun later _ _ report smaller changed => ?_
  rw [idle] at changed
  cases changed

theorem undisturbed_of_changed
    (changed :
      pass.visit job (cells (pass.cell job)) = .ok (some (report, smaller))) :
    pass.Undisturbed cells (job :: rest) ↔
      (∀ later ∈ rest, pass.cell later = pass.cell job →
          pass.told? later (cells (pass.cell job)) =
            pass.told? later smaller) ∧
        pass.Undisturbed cells rest := by
  unfold Undisturbed
  rw [List.pairwise_cons]
  refine and_congr_left' (forall₃_congr fun later _ same => ?_)
  constructor
  · exact fun holds => holds report smaller changed
  · intro holds other value changedToo
    rw [changed] at changedToo
    obtain ⟨rfl, rfl⟩ := Prod.mk.inj (Option.some.inj (Except.ok.inj changedToo))
    exact holds

theorem steady_cons :
    pass.Steady cells current (job :: rest) ↔
      (pass.size (current (pass.cell job)) <
            pass.size (cells (pass.cell job)) →
          pass.told? job (cells (pass.cell job)) =
            pass.told? job (current (pass.cell job))) ∧
        pass.Steady cells current rest :=
  List.forall_mem_cons

theorem told?_of_visit {result : Option (Report × Value)}
    (visited : pass.visit job value = .ok result) :
    pass.told? job value = .ok (result.map Prod.fst) := by
  simp [told?, visited, Except.map]

theorem told?_ne_of_changed {after : Value}
    (changed : pass.visit job value = .ok (some (report, after)))
    (less : pass.size smaller < pass.size value) :
    pass.told? job value ≠ pass.told? job smaller := by
  intro same
  rw [told?_of_visit changed] at same
  cases again : pass.visit job smaller with
  | error error => simp [told?, again, Except.map] at same
  | ok result =>
    rw [told?_of_visit again, Except.ok.injEq, Option.map_some] at same
    obtain ⟨change, rfl, told⟩ := Option.map_eq_some_iff.mp same.symm
    have size := (pass.told _ _ _ _ changed).2
    have sizeToo := (pass.told _ _ _ _ again).2
    rw [told, show (report, after).fst = report from rfl, size] at sizeToo
    omega

variable [DecidableEq Key]

@[simp] theorem committed_nil (cells : Key → Value) :
    pass.committed cells [] = .ok [] :=
  rfl

theorem committed_error {error : Error}
    (failed : pass.visit job (current (pass.cell job)) = .error error) :
    pass.committed current (job :: rest) = .error error := by
  simp [committed, commit, failed, Except.map]

theorem committed_none
    (idle : pass.visit job (current (pass.cell job)) = .ok none) :
    pass.committed current (job :: rest) = pass.committed current rest := by
  simp [committed, commit, idle]

theorem committed_some
    (changed :
      pass.visit job (current (pass.cell job)) =
        .ok (some (report, smaller))) :
    pass.committed current (job :: rest) =
      (pass.committed (Function.update current (pass.cell job) smaller)
        rest).map (List.cons report) := by
  simp only [committed, commit, changed]
  cases pass.commit (Function.update current (pass.cell job) smaller) rest <;>
    rfl

/-- A commit tells sizes that the cells do not exceed any more. -/
theorem reportSize_of_mem_committed
    (returned : pass.committed current jobs = .ok reports)
    (member : report ∈ reports) :
    pass.reportSize report ≤
      pass.size (current (pass.reportCell report)) := by
  induction jobs generalizing current reports with
  | nil =>
    obtain rfl : [] = reports := Except.ok.inj returned
    exact absurd member List.not_mem_nil
  | cons job rest ih =>
    cases visited : pass.visit job (current (pass.cell job)) with
    | error error =>
      rw [committed_error visited] at returned
      cases returned
    | ok change =>
      cases change with
      | none =>
        rw [committed_none visited] at returned
        exact ih returned member
      | some change =>
        obtain ⟨first, smaller⟩ := change
        rw [committed_some visited] at returned
        obtain ⟨cell, size⟩ := pass.told _ _ _ _ visited
        have shrinks := pass.shrinks _ _ _ _ visited
        cases later :
            pass.committed
              (Function.update current (pass.cell job) smaller) rest with
        | error error => rw [later] at returned; cases returned
        | ok others =>
          rw [later] at returned
          obtain rfl := Except.ok.inj returned
          rcases List.mem_cons.mp member with rfl | isLater
          · rw [cell]
            exact Nat.le_of_eq size
          · have within := ih later isLater
            by_cases same : pass.reportCell report = pass.cell job
            · rw [same, Function.update_self] at within
              rw [same]
              omega
            · rwa [Function.update_of_ne same] at within

theorem exists_visit_of_mem_committed
    (returned : pass.committed current jobs = .ok reports)
    (member : report ∈ reports) :
    ∃ job value smaller,
      pass.visit job value = .ok (some (report, smaller)) := by
  induction jobs generalizing current reports with
  | nil =>
    obtain rfl : [] = reports := Except.ok.inj returned
    exact absurd member List.not_mem_nil
  | cons job rest ih =>
    cases visited : pass.visit job (current (pass.cell job)) with
    | error error =>
      rw [committed_error visited] at returned
      cases returned
    | ok change =>
      cases change with
      | none =>
        rw [committed_none visited] at returned
        exact ih returned member
      | some change =>
        obtain ⟨first, smaller⟩ := change
        rw [committed_some visited] at returned
        cases later :
            pass.committed
              (Function.update current (pass.cell job) smaller) rest with
        | error error => rw [later] at returned; cases returned
        | ok others =>
          rw [later] at returned
          obtain rfl := Except.ok.inj returned
          rcases List.mem_cons.mp member with rfl | isLater
          · exact ⟨job, _, smaller, visited⟩
          · exact ih later isLater

theorem map_cons_eq_ok_iff {result : Except Error (List Report)}
    {others : List Report} :
    result.map (List.cons report) = .ok (report :: others) ↔
      result = .ok others := by
  cases result with
  | error error => simp [Except.map]
  | ok reports => simp [Except.map]

/-- A cell that is as at first takes one more change. -/
theorem steady_update
    (same : current (pass.cell job) = cells (pass.cell job))
    (shrinks : pass.size smaller < pass.size (cells (pass.cell job))) :
    pass.Steady cells (Function.update current (pass.cell job) smaller)
        rest ↔
      (∀ later ∈ rest, pass.cell later = pass.cell job →
          pass.told? later (cells (pass.cell job)) =
            pass.told? later smaller) ∧
        pass.Steady cells current rest := by
  unfold Steady
  rw [← forall₂_and]
  refine forall₂_congr fun later _ => ?_
  by_cases here : pass.cell later = pass.cell job
  · rw [here, Function.update_self, same]
    constructor
    · exact fun holds =>
        ⟨fun _ => holds shrinks, fun less => absurd less (Nat.lt_irrefl _)⟩
    · exact fun holds _ => holds.1 rfl
  · rw [Function.update_of_ne here]
    exact (and_iff_right fun isHere => absurd isHere here).symm

theorem Shrunk.update {key : Key} (shrunk : pass.Shrunk cells current)
    (shrinks : pass.size smaller < pass.size (cells key)) :
    pass.Shrunk cells (Function.update current key smaller) := by
  intro other
  by_cases same : other = key
  · rw [same, Function.update_self]
    exact Or.inr shrinks
  · rw [Function.update_of_ne same]
    exact shrunk other

/-- A changed cell: its jobs must tell the same, or the passes differ. -/
theorem committed_eq_iff_of_smaller {others : List Report}
    {visited : Option (Report × Value)}
    (smaller :
      pass.size (current (pass.cell job)) <
        pass.size (cells (pass.cell job)))
    (first : pass.visit job (cells (pass.cell job)) = .ok visited)
    (whole : pass.preview cells (job :: rest) = .ok reports)
    (later : pass.preview cells rest = .ok others) :
    pass.committed current (job :: rest) = .ok reports ↔
      pass.told? job (cells (pass.cell job)) =
          pass.told? job (current (pass.cell job)) ∧
        pass.committed current rest = .ok others := by
  rw [told?_of_visit first]
  cases again : pass.visit job (current (pass.cell job)) with
  | error error =>
    rw [committed_error again]
    simp [told?, again, Except.map]
  | ok change =>
    rw [told?_of_visit again, Except.ok.injEq]
    cases change with
    | none =>
      rw [committed_none again]
      cases visited with
      | none =>
        have same : others = reports := by
          rw [preview, first] at whole
          exact Except.ok.inj (later.symm.trans whole)
        simp [same]
      | some change =>
        obtain ⟨report, value⟩ := change
        have split : report :: others = reports := by
          rw [preview, first] at whole
          rw [later] at whole
          exact Except.ok.inj whole
        simp only [Option.map_some, Option.map_none, reduceCtorEq,
          false_and, iff_false]
        intro returned
        have size := reportSize_of_mem_committed returned
          (split ▸ List.mem_cons_self)
        obtain ⟨cell, whole⟩ := pass.told _ _ _ _ first
        rw [cell, whole] at size
        omega
    | some change =>
      obtain ⟨report, value⟩ := change
      obtain ⟨cell, size⟩ := pass.told _ _ _ _ again
      have notTold := not_mem_preview whole cell size smaller
      have notFirst : visited.map Prod.fst ≠ some report := by
        intro told
        obtain ⟨change, rfl, rfl⟩ := Option.map_eq_some_iff.mp told
        have sizeToo := (pass.told _ _ _ _ first).2
        omega
      rw [committed_some again]
      simp only [Option.map_some, notFirst, false_and, iff_false]
      intro returned
      cases after :
          pass.committed
            (Function.update current (pass.cell job) value) rest with
      | error error => rw [after] at returned; cases returned
      | ok tail =>
        rw [after] at returned
        obtain rfl := Except.ok.inj returned
        exact notTold List.mem_cons_self

/--
A commit reports what a preview reports just when jobs whose cell is changed
before them tell the same of it as it was at first.
-/
theorem committed_eq_iff (shrunk : pass.Shrunk cells current)
    (returned : pass.preview cells jobs = .ok reports) :
    pass.committed current jobs = .ok reports ↔
      pass.Steady cells current jobs ∧ pass.Undisturbed cells jobs := by
  induction jobs generalizing current reports with
  | nil =>
    obtain rfl : [] = reports := Except.ok.inj returned
    simp [Steady, Undisturbed]
  | cons job rest ih =>
    have whole := returned
    rw [preview] at returned
    split at returned
    · cases returned
    · next idle =>
        rw [undisturbed_of_idle idle, steady_cons]
        rcases shrunk (pass.cell job) with same | smaller
        · rw [committed_none (same ▸ idle), ih shrunk returned]
          simp [same]
        · rw [committed_eq_iff_of_smaller smaller idle whole returned,
            ih shrunk returned, and_assoc]
          simp [smaller]
    · next report value changed =>
        have shrinks := pass.shrinks _ _ _ _ changed
        rw [undisturbed_of_changed changed, steady_cons]
        cases later : pass.preview cells rest with
        | error error => rw [later] at returned; cases returned
        | ok others =>
          rw [later] at returned
          obtain rfl := Except.ok.inj returned
          rcases shrunk (pass.cell job) with same | smaller
          · have tail :=
              ih (shrunk.update shrinks) later
            rw [steady_update same shrinks] at tail
            rw [committed_some (same ▸ changed), map_cons_eq_ok_iff, tail]
            simp only [same, Nat.lt_irrefl, false_implies, true_and]
            exact and_assoc.trans and_left_comm
          · have differs := told?_ne_of_changed changed smaller
            rw [committed_eq_iff_of_smaller smaller changed whole later]
            simp [differs, smaller]

theorem committed_eq_preview_iff
    (returned : pass.preview cells jobs = .ok reports) :
    pass.committed cells jobs = .ok reports ↔
      pass.Undisturbed cells jobs := by
  rw [committed_eq_iff (fun _ => Or.inl rfl) returned]
  exact and_iff_right fun _ _ less => absurd less (Nat.lt_irrefl _)

end CellPass

end Library
