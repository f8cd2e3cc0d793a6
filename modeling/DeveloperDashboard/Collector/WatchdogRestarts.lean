import DeveloperDashboard.Library.Transition
import DeveloperDashboard.Perl.Number
import Mathlib.Data.List.Count

namespace DeveloperDashboard.Collector.WatchdogRestarts

open Library Perl

/-!
# The restart budget of the watchdog

Passes of `_supervise_one_collector` for one collector, whose status keeps the
number of restarts and the time from which they count.  Times are those of the
system clock, in its microseconds.
-/

/-- The `watchdog_status` of a collector. -/
inductive WatchdogStatus where
  | running
  | restartFailed
  | attentionRequired
deriving DecidableEq

/-- The fields of a status that passes write, where times are epochs. -/
structure CollectorStatus where
  running : Bool
  attentionRequired : Bool
  lastError : Option Text
  lastUnexpectedStopAt : Option Nat
  lastRestartAt : Option Nat
  restartCount : Nat
  windowStartedAt : Option Nat
  status : Option WatchdogStatus
deriving DecidableEq

/-- What a pass finds of the loop. -/
inductive LoopSeen where
  | healthy
  | stalled
  | dead
deriving DecidableEq

structure WatchdogPass where
  job : Except Text Unit
  loop : LoopSeen
  stopLoop : Except Text Unit
  checkedAt : Nat
  observedAt : Nat
  startedAt : Nat
  startLoop : Except Text (Option Nat)
  isReady : Bool
  inOrder : checkedAt ≤ observedAt ∧ observedAt ≤ startedAt

/-- The bucket and the entry of an outcome. -/
inductive PassOutcome where
  | none
  | restarted (pid : Option Nat)
  | attention (reason : Text)
deriving DecidableEq

section

variable (name : Text) (limit window : Nat)

/-- `_collector_watchdog_window` -/
def watchdogWindow (status : CollectorStatus) (now : Nat) : Nat × Nat :=
  match status.windowStartedAt with
  | some started =>
    if started + window < now then (0, now) else (status.restartCount, started)
  | none => (0, now)

/-- `_mark_collector_watchdog_attention` -/
def markAttention (status : CollectorStatus) (message : Text)
    (observedAt restartCount : Nat) (windowStartedAt : Option Nat) :
    CollectorStatus :=
  { status with
    running := false
    attentionRequired := true
    lastError := some message
    lastUnexpectedStopAt := some observedAt
    restartCount := restartCount
    windowStartedAt := windowStartedAt
    status := some .attentionRequired }

def quoted (front back : String) : Text :=
  front.toList ++ name ++ back.toList

/-- The error of a start, which is empty when the loop is up. -/
def startError (pass : WatchdogPass) : Text :=
  match pass.startLoop with
  | .error reason => reason
  | .ok (some _) =>
    if pass.isReady then []
    else quoted name "Failed to keep collector '"
      "' running after watchdog restart\n"
  | .ok none => []

/-- The pass from the count and the window on: it starts the loop. -/
def restartOnce (status : CollectorStatus) (pass : WatchdogPass)
    (restartCount windowStartedAt : Nat) : PassOutcome × CollectorStatus :=
  let written := { status with
    attentionRequired := false
    lastUnexpectedStopAt := some pass.observedAt
    restartCount := restartCount
    windowStartedAt := some windowStartedAt }
  if Perl.isTrue (startError name pass) then
    (.none, { written with
      running := false
      lastError := some (chomp (startError name pass))
      status := some .restartFailed })
  else
    (.restarted (pass.startLoop.toOption.getD none), { written with
      running := true
      lastError :=
        if pass.loop = .stalled then
          some (quoted name "Collector '"
            "' stopped making progress and was restarted by the watchdog")
        else none
      lastRestartAt := some pass.observedAt
      status := some .running })

/-- `_supervise_one_collector`, and whether it comes to start the loop. -/
def superviseOneCollector (status : CollectorStatus) (pass : WatchdogPass) :
    PassOutcome × CollectorStatus × Bool :=
  match pass.job, pass.loop, pass.stopLoop with
  | .error reason, _, _ =>
    (.attention reason,
      markAttention status reason pass.checkedAt 0 none, false)
  | .ok (), .healthy, _ => (.none, status, false)
  | .ok (), .stalled, .error reason =>
    (.attention (chomp reason),
      markAttention status (chomp reason) pass.checkedAt 0 none, false)
  | .ok (), _, _ =>
    let kept := watchdogWindow window status pass.checkedAt
    if limit < kept.1 + 1 then
      let message := quoted name "Collector '"
        "' stopped unexpectedly too many times within " ++
          (toString window).toList ++
          " seconds; manual investigation is required".toList
      (.attention message, markAttention status message pass.observedAt
        (kept.1 + 1) (some kept.2), false)
    else
      let ran := restartOnce name status pass (kept.1 + 1) kept.2
      (ran.1, ran.2, true)

/-- The starts that are left in the budget of a status. -/
def budget (status : CollectorStatus) (now : Nat) : Nat :=
  limit - (watchdogWindow window status now).1

/-- Whether a pass does not keep the window of a status. -/
def forgets (status : CollectorStatus) (pass : WatchdogPass) : Bool :=
  match pass.job, pass.loop, pass.stopLoop with
  | .error _, _, _ => true
  | .ok (), .healthy, _ => false
  | .ok (), .stalled, .error _ => true
  | .ok (), _, _ =>
    status.windowStartedAt.all fun started =>
      decide (started + window < pass.checkedAt)

/-- A watched collector, with the times of its starts. -/
structure Watched where
  status : CollectorStatus
  starts : List Nat
  clock : Nat

def Watched.after (watched : Watched) (pass : WatchdogPass) : Watched where
  status :=
    (superviseOneCollector name limit window watched.status pass).2.1
  starts :=
    if (superviseOneCollector name limit window watched.status pass).2.2 then
      pass.startedAt :: watched.starts
    else watched.starts
  clock := pass.startedAt

def watchdog : TransitionSystem Watched WatchdogPass where
  initial watched := watched.starts = []
  step watched pass next :=
    watched.clock ≤ pass.checkedAt ∧
      next = watched.after name limit window pass

/-- A pass keeps the window as long as it holds a start. -/
def KeepsWindow (watched : Watched) (pass : WatchdogPass) : Prop :=
  forgets window watched.status pass = true →
    ∀ start ∈ watched.starts, start + window < pass.checkedAt

def startsFrom (watched : Watched) (first : Nat) : Nat :=
  watched.starts.countP fun start =>
    decide (first ≤ start ∧ start ≤ first + window)

/-- The starts are those of the window, and others that are long past. -/
structure Accounted (watched : Watched) : Prop where
  bounded : ∀ first, startsFrom window watched first ≤ limit
  isPast : ∀ start ∈ watched.starts, start ≤ watched.clock
  current : ∀ started, watched.status.windowStartedAt = some started →
    ∃ recent past, watched.starts = recent ++ past ∧
      recent.length ≤ watched.status.restartCount ∧
      ∀ start ∈ past, start + window < watched.clock

end

variable {name : Text} {limit window : Nat}

theorem watchdogWindow_cases (window : Nat) (status : CollectorStatus)
    (now : Nat) :
    (status.windowStartedAt.all (fun started =>
        decide (started + window < now)) = true ∧
      watchdogWindow window status now = (0, now)) ∨
    ∃ started, status.windowStartedAt = some started ∧
      watchdogWindow window status now = (status.restartCount, started) := by
  unfold watchdogWindow
  cases status.windowStartedAt with
  | none => exact .inl ⟨rfl, rfl⟩
  | some started =>
    by_cases expired : started + window < now
    · exact .inl ⟨decide_eq_true expired, if_pos expired⟩
    · exact .inr ⟨started, rfl, if_neg expired⟩

/-- What a pass can do. -/
theorem superviseOneCollector_cases (name : Text) (limit window : Nat)
    (status : CollectorStatus) (pass : WatchdogPass) :
    (forgets window status pass = true ∧ ∃ reason next,
      superviseOneCollector name limit window status pass =
        (.attention reason, next, false) ∧ next.windowStartedAt = none) ∨
    superviseOneCollector name limit window status pass =
      (.none, status, false) ∨
    (forgets window status pass = status.windowStartedAt.all fun started =>
        decide (started + window < pass.checkedAt)) ∧
      ∃ outcome next starts,
        superviseOneCollector name limit window status pass =
          (outcome, next, starts) ∧
        next.restartCount =
          (watchdogWindow window status pass.checkedAt).1 + 1 ∧
        next.windowStartedAt =
          some (watchdogWindow window status pass.checkedAt).2 ∧
        (starts = true ↔ next.restartCount ≤ limit) ∧
        (starts = true → ∀ reason, outcome ≠ .attention reason) := by
  unfold forgets superviseOneCollector
  split
  · exact .inl ⟨rfl, _, _, rfl, rfl⟩
  · exact .inr (.inl rfl)
  · exact .inl ⟨rfl, _, _, rfl, rfl⟩
  · refine .inr (.inr ⟨rfl, ?_⟩)
    dsimp only
    split
    · next exceeds =>
      exact ⟨_, _, _, rfl, rfl, rfl, by simpa [markAttention] using exceeds,
        fun starts => absurd starts Bool.false_ne_true⟩
    · next under =>
      refine ⟨_, _, _, rfl, ?_⟩
      unfold restartOnce
      split <;>
        exact ⟨rfl, rfl, by simpa using Nat.le_of_not_lt under,
          fun _ _ isAttention => by cases isAttention⟩

theorem countP_le_length_of_past (starts : List Nat) {first added : Nat}
    (isIn : first ≤ added ∧ added ≤ first + window) {past : List Nat}
    (isPast : ∀ start ∈ past, start + window < added) :
    (starts ++ past).countP (fun start =>
      decide (first ≤ start ∧ start ≤ first + window)) ≤ starts.length := by
  have none_ : past.countP (fun start =>
      decide (first ≤ start ∧ start ≤ first + window)) = 0 := by
    refine List.countP_eq_zero.mpr fun start member => ?_
    have before := isPast start member
    rw [decide_eq_true_eq]
    omega
  rw [List.countP_append, none_]
  exact List.countP_le_length

/-- A start in a window that is accounted for keeps the bound. -/
theorem Accounted.start {watched : Watched} {added : Nat}
    (accounted : Accounted limit window watched) {recent past : List Nat}
    (whole : watched.starts = recent ++ past) (few : recent.length + 1 ≤ limit)
    (isPast : ∀ start ∈ past, start + window < added) (first : Nat) :
    (added :: watched.starts).countP (fun start =>
      decide (first ≤ start ∧ start ≤ first + window)) ≤ limit := by
  by_cases isIn : first ≤ added ∧ added ≤ first + window
  · have most := countP_le_length_of_past (added :: recent) isIn isPast
    rw [whole]
    exact Nat.le_trans most few
  · rw [List.countP_cons_of_neg (by simpa using isIn)]
    exact accounted.bounded first

theorem Accounted.after {watched : Watched} {pass : WatchdogPass}
    (accounted : Accounted limit window watched)
    (later : watched.clock ≤ pass.checkedAt)
    (keeps : KeepsWindow window watched pass) :
    Accounted limit window (watched.after name limit window pass) := by
  have order := pass.inOrder
  have isPast : ∀ start ∈ watched.starts, start ≤ pass.startedAt :=
    fun start member => by
      have before := accounted.isPast start member
      omega
  unfold Watched.after
  rcases superviseOneCollector_cases name limit window watched.status pass with
    ⟨-, reason, next, ran, noWindow⟩ | ran |
    ⟨forgets_, outcome, next, starts, ran, count, started, within, -⟩
  · rw [ran]
    refine ⟨accounted.bounded, isPast, fun started isAt => ?_⟩
    rw [noWindow] at isAt
    cases isAt
  · rw [ran]
    refine ⟨accounted.bounded, isPast, fun started isAt => ?_⟩
    obtain ⟨recent, past, whole, few, before⟩ := accounted.current started isAt
    refine ⟨recent, past, whole, few, fun start member => ?_⟩
    have before := before start member
    dsimp only
    omega
  · -- the window of the pass splits the starts
    obtain ⟨recent, past, whole, few, before⟩ : ∃ recent past,
        watched.starts = recent ++ past ∧ recent.length + 1 ≤ next.restartCount ∧
          ∀ start ∈ past, start + window < pass.startedAt := by
      rcases watchdogWindow_cases window watched.status
        pass.checkedAt with ⟨expired, fresh⟩ | ⟨begun, isAt, kept⟩
      · refine ⟨[], watched.starts, rfl, by simp [count], fun start member => ?_⟩
        have before := keeps (forgets_.trans expired) start member
        omega
      · obtain ⟨recent, past, whole, few, before⟩ := accounted.current begun isAt
        refine ⟨recent, past, whole, by rw [count, kept]; omega,
          fun start member => ?_⟩
        have before := before start member
        omega
    rw [ran]
    cases starts with
    | false =>
      refine ⟨accounted.bounded, isPast, fun _ _ => ⟨recent, past, whole, ?_,
        before⟩⟩
      dsimp only
      omega
    | true =>
      have most := within.mp rfl
      refine ⟨accounted.start whole (by omega) before, ?_,
        fun _ _ => ⟨pass.startedAt :: recent, past, ?_, few, before⟩⟩
      · exact List.forall_mem_cons.mpr ⟨Nat.le_refl _, isPast⟩
      · exact congrArg (List.cons _) whole

/-- Attention leaves no more starts than there were, while one counts. -/
theorem budget_le_of_attention (positive : 0 < limit) {watched : Watched}
    {pass : WatchdogPass} (keeps : KeepsWindow window watched pass)
    {reason : Text}
    (isAttention : (superviseOneCollector name limit window watched.status
      pass).1 = .attention reason)
    {start : Nat} (member : start ∈ watched.starts) {now : Nat}
    (later : pass.checkedAt ≤ now) (counts : now ≤ start + window) :
    budget limit window (watched.after name limit window pass).status now ≤
      budget limit window watched.status now := by
  unfold Watched.after
  rcases superviseOneCollector_cases name limit window watched.status pass with
    ⟨forgets_, -⟩ | ran |
    ⟨-, outcome, next, starts, ran, count, started, within, others⟩
  · have before := keeps forgets_ start member
    omega
  · rw [ran] at isAttention
    cases isAttention
  · rw [ran] at isAttention ⊢
    have exceeds : ¬next.restartCount ≤ limit :=
      fun under => others (within.mpr under) reason isAttention
    rcases watchdogWindow_cases window watched.status
      pass.checkedAt with ⟨-, fresh⟩ | ⟨begun, isAt, kept⟩
    · rw [fresh] at count
      omega
    · rw [kept] at count started
      dsimp only [budget, watchdogWindow]
      rw [started, isAt]
      dsimp only
      split <;> dsimp only <;> omega

/--
In a run whose passes keep the window as long as it holds a start, the loop is
started within the limit, and attention never gives a new budget.
-/
theorem restarts_bounded_of_execution (positive : 0 < limit)
    {trace : List WatchdogPass} {watched : Watched}
    (execution : ((watchdog name limit window).restrict
      (KeepsWindow window)).Execution trace watched) :
    (∀ first, startsFrom window watched first ≤ limit) ∧
      ∀ pass, KeepsWindow window watched pass →
        ∀ reason, (superviseOneCollector name limit window watched.status
          pass).1 = .attention reason →
        ∀ start ∈ watched.starts, ∀ now, pass.checkedAt ≤ now →
          now ≤ start + window →
          budget limit window (watched.after name limit window pass).status
            now ≤ budget limit window watched.status now := by
  have accounted : Accounted limit window watched := by
    refine execution.invariant (fun _ => Accounted limit window) ?_ ?_
    · intro first isInitial
      have none_ : first.starts = [] := isInitial
      refine ⟨fun from_ => ?_, ?_, fun _ _ => ⟨[], [], none_, Nat.zero_le _,
        fun _ member => absurd member List.not_mem_nil⟩⟩
      · rw [startsFrom, none_]
        exact Nat.zero_le _
      · rw [none_]
        exact fun _ member => absurd member List.not_mem_nil
    · rintro - before pass - accounted ⟨⟨later, rfl⟩, keeps⟩
      exact accounted.after later keeps
  exact ⟨accounted.bounded, fun pass keeps reason isAttention start member now
    later counts => budget_le_of_attention positive keeps isAttention member
      later counts⟩

def newWatched : Watched :=
  ⟨⟨true, false, none, none, none, 0, none, none⟩, [], 0⟩

/-- A pass that finds the loop dead, and does all it does at one time. -/
def deadPass (job : Except Text Unit) (time : Nat) : WatchdogPass where
  job := job
  loop := .dead
  stopLoop := .ok ()
  checkedAt := time
  observedAt := time
  startedAt := time
  startLoop := .ok (some 1)
  isReady := true
  inOrder := ⟨Nat.le_refl _, Nat.le_refl _⟩

theorem restarts_bounded_newWatched :
    startsFrom 10 (newWatched.after [] 1 10 (deadPass (.ok ()) 0)) 0 ≤ 1 :=
  (restarts_bounded_of_execution (by decide)
    (((TransitionSystem.Execution.start rfl).extend
      ⟨⟨Nat.le_refl 0, rfl⟩, fun _ _ member => absurd member List.not_mem_nil⟩ :
        ((watchdog [] 1 10).restrict (KeepsWindow 10)).Execution _ _))).1 0

/-- A job that is missing for one pass renews the budget of one start. -/
theorem attention_renews_budget :
    ∃ trace watched, (watchdog [] 1 10).Execution trace watched ∧
      startsFrom 10 watched 0 = 2 := by
  have first : (watchdog [] 1 10).Execution [] newWatched := .start rfl
  have second := first.extend (⟨Nat.zero_le _, rfl⟩ :
    (watchdog [] 1 10).step newWatched (deadPass (.ok ()) 0) _)
  have third := second.extend (⟨Nat.zero_le _, rfl⟩ :
    (watchdog [] 1 10).step _ (deadPass (.error []) 5) _)
  have fourth := third.extend (⟨show 5 ≤ 6 by decide, rfl⟩ :
    (watchdog [] 1 10).step _ (deadPass (.ok ()) 6) _)
  exact ⟨_, _, fourth, by decide⟩

end DeveloperDashboard.Collector.WatchdogRestarts
