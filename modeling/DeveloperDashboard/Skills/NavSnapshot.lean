import DeveloperDashboard.Library.Transition
import DeveloperDashboard.Skills.NavLocality

namespace DeveloperDashboard.Skills

open Library Perl

/-!
# The watched snapshot of the navigation pages

A dispatcher keeps the pages of a load together with the list of the watched
directories, and serves them as long as no event is queued.  The pages are
loaded first and the directories are watched afterwards, and a list that stays
the same keeps the open descriptor.  Changes of the file system come at any
time.
-/

/--
What is outside of the dispatcher: the folders and files, the runtime roots, and
which directory or file it is that stands at a path.
-/
structure NavWorld (Content : Type) where
  tree : FileTree Text Content
  runtimeRoots : List Path
  inode : Path → Nat

/-- `skills_roots` of some runtime roots. -/
def skillsRootsOf (runtimeRoots : List Path) : List Path :=
  runtimeRoots.map fun root => root ++ ["skills".toList]

/-- The entry of the cache `_skill_nav_pages_snapshot`. -/
structure NavSnapshot (Page : Type) where
  signature : List Path
  runtimeRoots : List Path
  pages : List Page

structure NavWatcher where
  paths : List Path
  watched : List Nat
  pending : Bool

/--
Where a call of `all_skill_nav_pages` is.  The flags tell whether there was a
change, since the load began, that it may or may not have seen.
-/
inductive NavCall (Page : Type) where
  | idle
  | loading (disturbed : Bool)
  | loaded (loaded : PathRegistry.LoadedNav Page) (disturbed : Bool)

/-- A change comes while a call is under way. -/
def NavCall.disturb {Page : Type} : NavCall Page → NavCall Page
  | .idle => .idle
  | .loading _ => .loading true
  | .loaded found _ => .loaded found true

structure NavState (Content Page : Type) where
  world : NavWorld Content
  snapshot : Option (NavSnapshot Page)
  watcher : Option NavWatcher
  call : NavCall Page

inductive NavEvent (Content Page : Type) where
  | change (directories : List Path) (after : NavWorld Content)
  | serve (pages : List Page)
  /-- The flag tells whether one read leaves events in the queue. -/
  | miss (remaining : Bool)
  | load (loaded : PathRegistry.LoadedNav Page)
  | die
  | cache (inventory : List Path)

variable {Content Page : Type}

namespace NavWorld

abbrev registryAt (world : NavWorld Content) (runtimeRoots : List Path) :
    PathRegistry Content :=
  PathRegistry.registry (skillsRootsOf runtimeRoots) world.tree

/-- What a load gives that no change comes upon. -/
def load (reader : NavReader Content Page) (world : NavWorld Content) :
    Option (PathRegistry.LoadedNav Page) :=
  (world.registryAt world.runtimeRoots).loadNav reader

/--
Only entries of some directories change, and what is below an entry only
together with it.
-/
def ChangesInside
    (directories : List Path) (before after : NavWorld Content) : Prop :=
  ∀ path,
    before.tree.entries.lookup path ≠ after.tree.entries.lookup path ∨
        before.inode path ≠ after.inode path →
      ∃ dir ∈ directories, ∃ name,
        path = dir ++ [name] ∨
          dir ++ [name] <+: path ∧
            before.inode (dir ++ [name]) ≠ after.inode (dir ++ [name])

/-- Whether something changes that the pages of some roots are made from. -/
def ChangesPages
    (runtimeRoots : List Path) (before after : NavWorld Content) : Prop :=
  ¬NavAgree (skillsRootsOf runtimeRoots) before.tree after.tree

end NavWorld

namespace NavWatcher

/-- Whether a change in some directories queues an event. -/
def notices (watcher : NavWatcher) (inode : Path → Nat)
    (directories : List Path) :
    Bool :=
  directories.any fun dir => watcher.watched.contains (inode dir)

def queue (watcher : NavWatcher) (inode : Path → Nat)
    (directories : List Path) :
    NavWatcher :=
  { watcher with
    pending := watcher.pending || watcher.notices inode directories }

/-- `unchanged`, which has queued events read. -/
def isUnchanged (watcher : NavWatcher) (signature : List Path) : Bool :=
  decide (signature = watcher.paths) && !watcher.pending

/-- The watcher after `unchanged`. -/
def poll (watcher : NavWatcher) (signature : List Path) (remaining : Bool) :
    NavWatcher :=
  if signature = watcher.paths then
    { watcher with pending := watcher.pending && remaining }
  else watcher

/-- `configure`: the same directories keep the descriptor. -/
def configure (watcher : Option NavWatcher) (inode : Path → Nat)
    (paths : List Path) :
    NavWatcher :=
  match watcher with
  | none => ⟨paths, paths.map inode, false⟩
  | some watcher =>
    if watcher.paths = paths then watcher
    else ⟨paths, paths.map inode, false⟩

end NavWatcher

namespace NavState

/-- Whether `_cached_all_skill_nav_pages` comes to ask the watcher. -/
def asks (state : NavState Content Page) (snapshot : NavSnapshot Page) :
    Bool :=
  decide (snapshot.runtimeRoots = state.world.runtimeRoots)

/-- `_cached_all_skill_nav_pages`. -/
def cachedPages (state : NavState Content Page) : Option (List Page) :=
  state.snapshot.bind fun snapshot =>
    state.watcher.bind fun watcher =>
      if state.asks snapshot && watcher.isUnchanged snapshot.signature then
        some snapshot.pages
      else none

def missed (state : NavState Content Page) (remaining : Bool) :
    NavState Content Page :=
  { state with
    snapshot := none
    watcher :=
      match state.snapshot with
      | none => state.watcher
      | some snapshot =>
        if state.asks snapshot then
          state.watcher.map fun watcher =>
            watcher.poll snapshot.signature remaining
        else state.watcher
    call := .loading false }

/-- The directories that `_cache_all_skill_nav_pages` watches. -/
def pathsToWatch (state : NavState Content Page)
    (loaded : PathRegistry.LoadedNav Page) (inventory : List Path) :
    List Path :=
  (state.world.registryAt state.world.runtimeRoots).watchPaths
    state.world.runtimeRoots loaded.skillRoots loaded.skillLayers inventory

/-- `_cache_all_skill_nav_pages`. -/
def cached (reader : NavReader Content Page) (state : NavState Content Page)
    (loaded : PathRegistry.LoadedNav Page) (inventory : List Path) :
    NavState Content Page :=
  let paths := state.pathsToWatch loaded inventory
  if PathRegistry.cacheable reader loaded.pages && !paths.isEmpty then
    { state with
      snapshot := some ⟨paths, state.world.runtimeRoots, loaded.pages⟩
      watcher := NavWatcher.configure state.watcher state.world.inode paths
      call := .idle }
  else { state with snapshot := none, call := .idle }

/-- A change is one that a load under way may notice. -/
def Disturbs (state : NavState Content Page) (after : NavWorld Content) :
    Prop :=
  after.runtimeRoots ≠ state.world.runtimeRoots ∨
    state.world.ChangesPages state.world.runtimeRoots after

end NavState

inductive NavStep (reader : NavReader Content Page) :
    NavState Content Page → NavEvent Content Page →
      NavState Content Page → Prop where
  | change
      {state : NavState Content Page}
      {directories : List Path}
      {after : NavWorld Content}
      {call : NavCall Page} :
      state.world.ChangesInside directories after →
      (state.Disturbs after → call = state.call.disturb) →
      (¬state.Disturbs after → call = state.call) →
      NavStep reader state (.change directories after)
        { state with
          world := after
          watcher :=
            state.watcher.map fun watcher =>
              watcher.queue state.world.inode directories
          call := call }
  | serve {state : NavState Content Page} {pages : List Page} :
      state.call = .idle →
      state.cachedPages = some pages →
      NavStep reader state (.serve pages) state
  | miss {state : NavState Content Page} {remaining : Bool} :
      state.call = .idle →
      state.cachedPages = none →
      NavStep reader state (.miss remaining) (state.missed remaining)
  /-- A load that a change comes upon may find anything. -/
  | load
      {state : NavState Content Page}
      {loaded : PathRegistry.LoadedNav Page}
      {disturbed : Bool} :
      state.call = .loading disturbed →
      (disturbed = false → state.world.load reader = some loaded) →
      NavStep reader state (.load loaded)
        { state with call := .loaded loaded disturbed }
  | die {state : NavState Content Page} {disturbed : Bool} :
      state.call = .loading disturbed →
      (disturbed = false → state.world.load reader = none) →
      NavStep reader state .die { state with call := .idle }
  | cache
      {state : NavState Content Page}
      {loaded : PathRegistry.LoadedNav Page}
      {disturbed : Bool}
      {inventory : List Path} :
      state.call = .loaded loaded disturbed →
      NavStep reader state (.cache inventory)
        (state.cached reader loaded inventory)

/-- A dispatcher that starts with nothing cached. -/
def navSystem (reader : NavReader Content Page) :
    TransitionSystem (NavState Content Page) (NavEvent Content Page) where
  initial state :=
    state.snapshot = none ∧ state.watcher = none ∧ state.call = .idle
  step := NavStep reader

namespace NavState

/-- The pages are what a load of the world gives, with some runtime roots. -/
def IsFresh (reader : NavReader Content Page) (world : NavWorld Content)
    (runtimeRoots : List Path) (pages : List Page) :
    Prop :=
  ((world.registryAt runtimeRoots).loadNav reader).map
      PathRegistry.LoadedNav.pages =
    some pages

/--
The pages that a step returns from a call, if it does, are those that a load
gives now, unless a change came upon the call.
-/
def ReturnsFresh
    (reader : NavReader Content Page) (state : NavState Content Page) :
    NavEvent Content Page → Prop
  | .serve pages =>
    IsFresh reader state.world state.world.runtimeRoots pages
  | .cache _ =>
    ∀ loaded,
      state.call = .loaded loaded false →
        IsFresh reader state.world state.world.runtimeRoots loaded.pages
  | _ => True

/--
A change of what the cached pages are made from is in a directory that the open
descriptor watches; and pages that a change came upon are cached only under a
descriptor that stays open and has an event queued.
-/
def KeepsWatch
    (reader : NavReader Content Page) (state : NavState Content Page) :
    NavEvent Content Page → Prop
  | .change directories after =>
    ∀ snapshot,
      state.snapshot = some snapshot →
      state.world.ChangesPages snapshot.runtimeRoots after →
        ∃ watcher,
          state.watcher = some watcher ∧
            watcher.notices state.world.inode directories = true
  | .cache inventory =>
    ∀ loaded,
      state.call = .loaded loaded true →
      PathRegistry.cacheable reader loaded.pages = true →
        ∃ watcher,
          state.watcher = some watcher ∧ watcher.pending = true ∧
            watcher.paths = state.pathsToWatch loaded inventory
  | _ => True

/-- What holds as long as the watch is kept. -/
structure Sound
    (reader : NavReader Content Page) (state : NavState Content Page) :
    Prop where
  snapshot :
    ∀ snapshot,
      state.snapshot = some snapshot →
        ∃ watcher,
          state.watcher = some watcher ∧
            (watcher.pending = true ∨
              IsFresh reader state.world snapshot.runtimeRoots snapshot.pages)
  call :
    ∀ loaded,
      state.call = .loaded loaded false →
        IsFresh reader state.world state.world.runtimeRoots loaded.pages

variable {reader : NavReader Content Page} {state : NavState Content Page}

theorem IsFresh.agree
    {before after : NavWorld Content} {runtimeRoots : List Path}
    {pages : List Page} (fresh : IsFresh reader before runtimeRoots pages)
    (same : ¬before.ChangesPages runtimeRoots after) :
    IsFresh reader after runtimeRoots pages := by
  unfold IsFresh at fresh ⊢
  rw [← fresh]
  exact congrArg (Option.map _)
    (PathRegistry.loadNav_agree reader (not_not.mp same)).symm

/-- A change keeps the snapshot sound, if it queues an event when it must. -/
theorem Sound.change (sound : Sound reader state)
    {directories : List Path} {after : NavWorld Content}
    {call : NavCall Page}
    (watched : KeepsWatch reader state (.change directories after))
    (disturbs : state.Disturbs after → call = state.call.disturb)
    (keeps : ¬state.Disturbs after → call = state.call) :
    Sound reader
      { state with
        world := after
        watcher :=
          state.watcher.map fun watcher =>
            watcher.queue state.world.inode directories
        call := call } where
  snapshot := by
    intro snapshot cached
    obtain ⟨watcher, isOpen, either⟩ := sound.snapshot snapshot cached
    refine ⟨watcher.queue state.world.inode directories, ?_, ?_⟩
    · change state.watcher.map _ = _
      rw [isOpen]
      rfl
    · by_cases changes :
          state.world.ChangesPages snapshot.runtimeRoots after
      · obtain ⟨same, isSame, notices⟩ := watched snapshot cached changes
        obtain rfl := Option.some.inj (isOpen.symm.trans isSame)
        left
        rw [NavWatcher.queue, notices, Bool.or_true]
      · rcases either with pending | fresh
        · left
          rw [NavWatcher.queue, pending, Bool.true_or]
        · exact Or.inr (fresh.agree changes)
  call := by
    intro loaded atLoaded
    by_cases disturbed : state.Disturbs after
    · have same := (disturbs disturbed).symm.trans atLoaded
      cases was : state.call <;> rw [was] at same <;> cases same
    · obtain ⟨sameRoots, samePages⟩ := not_or.mp disturbed
      have fresh :=
        sound.call loaded ((keeps disturbed).symm.trans atLoaded)
      change IsFresh reader after after.runtimeRoots loaded.pages
      rw [not_not.mp sameRoots]
      exact fresh.agree samePages

theorem Sound.load (sound : Sound reader state)
    {loaded : PathRegistry.LoadedNav Page} {disturbed : Bool}
    (found :
      disturbed = false → state.world.load reader = some loaded) :
    Sound reader { state with call := .loaded loaded disturbed } where
  snapshot := sound.snapshot
  call := by
    rintro _ ⟨⟩
    unfold IsFresh
    rw [← NavWorld.load, found rfl]
    rfl

/-- What is cached is fresh, or there is an event that tells. -/
theorem Sound.cache (sound : Sound reader state)
    {loaded : PathRegistry.LoadedNav Page} {disturbed : Bool}
    {inventory : List Path}
    (atLoaded : state.call = .loaded loaded disturbed)
    (watched : KeepsWatch reader state (.cache inventory)) :
    Sound reader (state.cached reader loaded inventory) := by
  unfold cached
  dsimp only
  split
  · next cacheable =>
      refine ⟨?_, fun _ => by simp⟩
      rintro _ ⟨⟩
      refine ⟨_, rfl, ?_⟩
      cases disturbed with
      | false => exact Or.inr (sound.call loaded atLoaded)
      | true =>
        obtain ⟨watcher, isOpen, pending, same⟩ :=
          watched loaded atLoaded (Bool.and_eq_true_iff.mp cacheable).1
        left
        rw [isOpen, NavWatcher.configure, if_pos same]
        exact pending
  · exact ⟨fun _ => by simp, fun _ => by simp⟩

theorem Sound.step
    {event : NavEvent Content Page} {next : NavState Content Page}
    (sound : Sound reader state) (taken : NavStep reader state event next)
    (watched : KeepsWatch reader state event) :
    Sound reader next := by
  cases taken with
  | change _ disturbs keeps => exact sound.change watched disturbs keeps
  | serve _ _ => exact sound
  | miss _ _ => exact ⟨fun _ => by simp [missed], fun _ => by simp [missed]⟩
  | load _ found => exact sound.load found
  | die _ _ => exact ⟨sound.snapshot, fun _ => by simp⟩
  | cache atLoaded => exact sound.cache atLoaded watched

theorem Sound.returnsFresh
    {event : NavEvent Content Page} {next : NavState Content Page}
    (sound : Sound reader state) (taken : NavStep reader state event next) :
    ReturnsFresh reader state event := by
  cases taken with
  | serve _ served =>
    obtain ⟨snapshot, cached, answer⟩ := Option.bind_eq_some_iff.mp served
    obtain ⟨watcher, isOpen, shown⟩ := Option.bind_eq_some_iff.mp answer
    split at shown
    · next valid =>
        obtain ⟨asked, quiet⟩ := Bool.and_eq_true_iff.mp valid
        obtain rfl := Option.some.inj shown
        obtain ⟨same, isSame, either⟩ := sound.snapshot snapshot cached
        obtain rfl := Option.some.inj (isOpen.symm.trans isSame)
        have roots :
            snapshot.runtimeRoots = state.world.runtimeRoots :=
          of_decide_eq_true asked
        change IsFresh reader state.world state.world.runtimeRoots _
        rw [← roots]
        refine either.resolve_left fun pending => ?_
        rw [NavWatcher.isUnchanged, pending, Bool.not_true,
          Bool.and_false] at quiet
        contradiction
    · contradiction
  | cache atLoaded => exact sound.call
  | change _ _ _ => trivial
  | miss _ _ => trivial
  | load _ _ => trivial
  | die _ _ => trivial

/--
In every run in which the watch is kept, a call returns what a fresh dispatcher
would return.
-/
theorem allSkillNavPages_fresh (reader : NavReader Content Page)
    {trace : List (NavEvent Content Page)}
    {state next : NavState Content Page} {event : NavEvent Content Page}
    (execution :
      ((navSystem reader).restrict (KeepsWatch reader)).Execution trace state)
    (taken : (navSystem reader).step state event next) :
    ReturnsFresh reader state event := by
  have sound : Sound reader state :=
    execution.invariant (fun _ state => Sound reader state)
      (fun initially => by
        obtain ⟨noSnapshot, -, atIdle⟩ := initially
        constructor
        · intro snapshot cached
          rw [noSnapshot] at cached
          contradiction
        · intro loaded atLoaded
          rw [atIdle] at atLoaded
          contradiction)
      (fun sound step => sound.step step.1 step.2)
  exact sound.returnsFresh taken

def noteReader : NavReader Bool Bool where
  read := fun _ _ _ _ content => some content
  literalBytes := fun _ => some 1

def noteSkill : Path :=
  [['r'], "skills".toList, ['s']]

def noteNav : Path :=
  PathRegistry.navRoot noteSkill

def noteFolders : Entries Path (FileNode Bool) :=
  [([], .folder), ([['r']], .folder),
    ([['r'], "skills".toList], .folder), (noteSkill, .folder),
    (noteSkill ++ ["dashboards".toList], .folder), (noteNav, .folder)]

def noteTree (content : Bool) : FileTree Text Bool where
  entries := noteFolders ++ [(noteNav ++ [['a']], .file content)]
  closed := by
    cases content <;> decide

/-- The page and the directory that it is in may be replaced. -/
def noteWorld (content : Bool) (nav : Nat) : NavWorld Bool where
  tree := noteTree content
  runtimeRoots := [[['r']]]
  inode := fun path => if path = noteNav then nav else path.length

def noteLoaded (content : Bool) : PathRegistry.LoadedNav Bool where
  pages := [content]
  skillRoots := [noteSkill]
  skillLayers := [noteSkill, noteSkill]

def notePaths : List Path :=
  [[], [['r']], [['r'], "skills".toList], noteSkill,
    noteSkill ++ ["dashboards".toList], noteNav]

def noteSnapshot (content : Bool) : NavSnapshot Bool :=
  ⟨notePaths, [[['r']]], [content]⟩

def noteState (content : Bool) (nav : Nat)
    (snapshot : Option (NavSnapshot Bool)) (watcher : Option NavWatcher)
    (call : NavCall Bool) :
    NavState Bool Bool :=
  ⟨noteWorld content nav, snapshot, watcher, call⟩

/-- A watcher that was set up while this was the directory of the page. -/
def noteWatcher (nav : Nat) (pending : Bool) : NavWatcher :=
  ⟨notePaths, notePaths.map (noteWorld false nav).inode, pending⟩

theorem load_noteWorld (content : Bool) (nav : Nat) :
    (noteWorld content nav).load noteReader = some (noteLoaded content) := by
  have same :
      (noteWorld content nav).load noteReader =
        (noteWorld content 0).load noteReader := rfl
  rw [same]
  cases content <;> decide +kernel

theorem cached_noteState (content shown disturbed : Bool) (nav : Nat)
    (snapshot : Option (NavSnapshot Bool)) (watcher : Option NavWatcher) :
    (noteState content nav snapshot watcher
        (.loaded (noteLoaded shown) disturbed)).cached noteReader
          (noteLoaded shown) [] =
      noteState content nav (some (noteSnapshot shown))
        (some
          (NavWatcher.configure watcher (noteWorld content nav).inode
            notePaths))
        .idle := by
  have paths (state : NavState Bool Bool)
      (world : state.world = noteWorld content nav) :
      state.pathsToWatch (noteLoaded shown) [] = notePaths := by
    have same :
        state.pathsToWatch (noteLoaded shown) [] =
          ((noteWorld content 0).registryAt [[['r']]]).watchPaths [[['r']]]
            [noteSkill] [noteSkill, noteSkill] [] := by
      unfold pathsToWatch
      rw [world]
      rfl
    rw [same]
    cases content <;> decide +kernel
  unfold cached
  dsimp only
  rw [paths _ rfl]
  exact if_pos (by cases shown <;> rfl)

theorem changesInside_content (before after : Bool) (nav : Nat) :
    (noteWorld before nav).ChangesInside [noteNav] (noteWorld after nav) := by
  intro path differs
  refine ⟨noteNav, List.mem_singleton_self _, ['a'], Or.inl ?_⟩
  by_contra elsewhere
  refine (differs.resolve_right (not_not.mpr rfl)) ?_
  change (noteFolders ++ _).lookup path = (noteFolders ++ _).lookup path
  rw [Entries.lookup_append, Entries.lookup_append, Entries.lookup_cons,
    Entries.lookup_cons, if_neg (Ne.symm elsewhere),
    if_neg (Ne.symm elsewhere)]

theorem changesInside_nav (content : Bool) (before after : Nat) :
    (noteWorld content before).ChangesInside
      [noteSkill ++ ["dashboards".toList]] (noteWorld content after) := by
  intro path differs
  refine ⟨_, List.mem_singleton_self _, "nav".toList, Or.inl ?_⟩
  by_contra elsewhere
  refine differs.resolve_left (not_not.mpr rfl) ?_
  exact (if_neg elsewhere).trans (if_neg elsewhere).symm

theorem changesPages_content (nav : Nat) :
    (noteWorld false nav).ChangesPages [[['r']]] (noteWorld true nav) := by
  intro agree
  have isSkill : IsSkillDir (skillsRootsOf [[['r']]]) noteSkill :=
    ⟨_, ['s'], .root (List.mem_singleton_self _), rfl⟩
  have same :
      (noteTree false).entries.lookup (noteNav ++ [['a']]) =
        (noteTree true).entries.lookup (noteNav ++ [['a']]) :=
    agree _ (.nav isSkill (List.prefix_append _ _))
  exact absurd (Option.some.inj same) (by simp)

theorem noteLoads {content : Bool} {nav : Nat}
    {snapshot : Option (NavSnapshot Bool)} {watcher : Option NavWatcher}
    (stale :
      (noteState content nav snapshot watcher .idle).cachedPages = none) :
    ((navSystem noteReader).restrict (KeepsWatch noteReader)).Run
      (noteState content nav snapshot watcher .idle)
      [.miss false, .load (noteLoaded content)]
      { (noteState content nav snapshot watcher .idle).missed false with
        call := .loaded (noteLoaded content) false } := by
  have misses :
      ((navSystem noteReader).restrict (KeepsWatch noteReader)).Run _
        [.miss false] _ :=
    .single ⟨.miss rfl stale, trivial⟩
  exact misses.extend
    ⟨.load rfl fun _ => load_noteWorld content nav, trivial⟩

theorem noteFirst (nav : Nat) :
    ((navSystem noteReader).restrict (KeepsWatch noteReader)).Execution
      [.miss false, .load (noteLoaded false), .cache []]
      (noteState false nav (some (noteSnapshot false))
        (some (noteWatcher nav false)) .idle) := by
  have starts :
      ((navSystem noteReader).restrict (KeepsWatch noteReader)).Execution []
        (noteState false nav none none .idle) :=
    .start ⟨rfl, rfl, rfl⟩
  have caches :
      (navSystem noteReader).step
        (noteState false nav none none (.loaded (noteLoaded false) false))
        (.cache [])
        (noteState false nav (some (noteSnapshot false))
          (some (noteWatcher nav false)) .idle) := by
    have same := cached_noteState false false false nav none none
    exact same ▸ NavStep.cache rfl
  exact (starts.append (noteLoads rfl)).extend
    ⟨caches, fun loaded atLoaded => by cases atLoaded⟩

theorem note_edits
    {nav : Nat} {snapshot : Option (NavSnapshot Bool)} {watcher : NavWatcher} :
    (navSystem noteReader).step
      (noteState false nav snapshot (some watcher) .idle)
      (.change [noteNav] (noteWorld true nav))
      (noteState true nav snapshot
        (some (watcher.queue (noteWorld false nav).inode [noteNav])) .idle) :=
  NavStep.change (changesInside_content false true nav) (fun _ => rfl)
    (fun _ => rfl)

/-- The page is edited after it was loaded and before it is watched. -/
theorem note_edited_unwatched :
    (navSystem noteReader).Execution
      [.miss false, .load (noteLoaded false),
        .change [noteNav] (noteWorld true 50), .cache []]
      (noteState true 50 (some (noteSnapshot false))
        (some (noteWatcher 50 false)) .idle) := by
  have starts :
      ((navSystem noteReader).restrict (KeepsWatch noteReader)).Execution []
        (noteState false 50 none none .idle) :=
    .start ⟨rfl, rfl, rfl⟩
  have loads := (starts.append (noteLoads rfl)).of_restrict
  have disturbs :
      (noteState false 50 none none
        (.loaded (noteLoaded false) false)).Disturbs (noteWorld true 50) :=
    Or.inr (changesPages_content 50)
  have edits :
      (navSystem noteReader).step
        (noteState false 50 none none (.loaded (noteLoaded false) false))
        (.change [noteNav] (noteWorld true 50))
        (noteState true 50 none none (.loaded (noteLoaded false) true)) :=
    NavStep.change (changesInside_content false true 50) (fun _ => rfl)
      (fun quiet => absurd disturbs quiet)
  have caches :
      (navSystem noteReader).step
        (noteState true 50 none none (.loaded (noteLoaded false) true))
        (.cache [])
        (noteState true 50 (some (noteSnapshot false))
          (some (noteWatcher 50 false)) .idle) := by
    have same := cached_noteState true false true 50 none none
    exact same ▸ NavStep.cache rfl
  exact (loads.extend edits).extend caches

/-- The directory of the page is replaced, and then the page is edited. -/
theorem note_edited_replaced :
    (navSystem noteReader).Execution
      [.miss false, .load (noteLoaded false), .cache [],
        .change [noteSkill ++ ["dashboards".toList]] (noteWorld false 51),
        .miss false, .load (noteLoaded false), .cache [],
        .change [noteNav] (noteWorld true 51)]
      (noteState true 51 (some (noteSnapshot false))
        (some (noteWatcher 50 false)) .idle) := by
  have replaces :
      ((navSystem noteReader).restrict (KeepsWatch noteReader)).step
        (noteState false 50 (some (noteSnapshot false))
          (some (noteWatcher 50 false)) .idle)
        (.change [noteSkill ++ ["dashboards".toList]] (noteWorld false 51))
        (noteState false 51 (some (noteSnapshot false))
          (some (noteWatcher 50 true)) .idle) := by
    refine ⟨NavStep.change (changesInside_nav false 50 51) (fun _ => rfl)
      (fun _ => rfl), fun snapshot _ changes => ?_⟩
    exact absurd (fun _ _ => rfl) changes
  have caches :
      (navSystem noteReader).step
        (noteState false 51 none (some (noteWatcher 50 false))
          (.loaded (noteLoaded false) false))
        (.cache [])
        (noteState false 51 (some (noteSnapshot false))
          (some (noteWatcher 50 false)) .idle) := by
    have same :=
      cached_noteState false false false 51 none
        (some (noteWatcher 50 false))
    exact same ▸ NavStep.cache rfl
  have again :=
    (((noteFirst 50).extend replaces).append (noteLoads rfl)).of_restrict
  exact (again.extend caches).extend note_edits

/-- A call that begins now serves pages that are not those of a load. -/
def ServesStale
    (reader : NavReader Content Page) (state : NavState Content Page) :
    Prop :=
  ∃ pages,
    (navSystem reader).step state (.serve pages) state ∧
      ¬ReturnsFresh reader state (.serve pages)

theorem note_served (nav : Nat) :
    ServesStale noteReader
      (noteState true nav (some (noteSnapshot false))
        (some (noteWatcher 50 false)) .idle) := by
  refine ⟨[false], .serve rfl rfl, fun fresh => ?_⟩
  have loads := load_noteWorld true nav
  change
    ((noteWorld true nav).load noteReader).map PathRegistry.LoadedNav.pages =
      some [false] at fresh
  rw [loads] at fresh
  exact absurd (Option.some.inj fresh) (by simp [noteLoaded])

/--
A page that is edited after it was loaded and before it is watched is served as
it was; and so is one that is edited after its directory was replaced.
-/
theorem allSkillNavPages_stale :
    ∃ unwatched replaced,
      (navSystem noteReader).Execution
          [.miss false, .load (noteLoaded false),
            .change [noteNav] (noteWorld true 50), .cache []]
          unwatched ∧
        ServesStale noteReader unwatched ∧
        (navSystem noteReader).Execution
          [.miss false, .load (noteLoaded false), .cache [],
            .change [noteSkill ++ ["dashboards".toList]]
              (noteWorld false 51),
            .miss false, .load (noteLoaded false), .cache [],
            .change [noteNav] (noteWorld true 51)]
          replaced ∧
        ServesStale noteReader replaced :=
  ⟨_, _, note_edited_unwatched, note_served 50, note_edited_replaced,
    note_served 51⟩

/-- An edit in a watched directory is noticed, and the new page is served. -/
theorem allSkillNavPages_fresh_edited :
    ∃ state,
      ((navSystem noteReader).restrict (KeepsWatch noteReader)).Execution
          [.miss false, .load (noteLoaded false), .cache [],
            .change [noteNav] (noteWorld true 50),
            .miss false, .load (noteLoaded true), .cache []]
          state ∧
        (navSystem noteReader).step state (.serve [true]) state ∧
        ReturnsFresh noteReader state (.serve [true]) := by
  have edits :
      ((navSystem noteReader).restrict (KeepsWatch noteReader)).step
        (noteState false 50 (some (noteSnapshot false))
          (some (noteWatcher 50 false)) .idle)
        (.change [noteNav] (noteWorld true 50))
        (noteState true 50 (some (noteSnapshot false))
          (some (noteWatcher 50 true)) .idle) :=
    ⟨note_edits, fun _ _ _ => ⟨noteWatcher 50 false, rfl, rfl⟩⟩
  have caches :
      (navSystem noteReader).step
        (noteState true 50 none (some (noteWatcher 50 false))
          (.loaded (noteLoaded true) false))
        (.cache [])
        (noteState true 50 (some (noteSnapshot true))
          (some (noteWatcher 50 false)) .idle) := by
    have same :=
      cached_noteState true true false 50 none (some (noteWatcher 50 false))
    exact same ▸ NavStep.cache rfl
  have execution :=
    (((noteFirst 50).extend edits).append (noteLoads rfl)).extend
      ⟨caches, fun loaded atLoaded => by cases atLoaded⟩
  have serves :
      (navSystem noteReader).step
        (noteState true 50 (some (noteSnapshot true))
          (some (noteWatcher 50 false)) .idle)
        (.serve [true])
        (noteState true 50 (some (noteSnapshot true))
          (some (noteWatcher 50 false)) .idle) :=
    .serve rfl rfl
  exact ⟨_, execution, serves,
    allSkillNavPages_fresh noteReader execution serves⟩

end NavState

end DeveloperDashboard.Skills
