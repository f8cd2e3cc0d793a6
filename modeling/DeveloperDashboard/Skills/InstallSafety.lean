import DeveloperDashboard.Skills.SkillInstall

namespace DeveloperDashboard.Skills

open Library Perl

/-!
# What an install leaves alone

The existing tree is removed before the new one is fetched.  So a local source
and the installed tree are left alone, however the fetch ends, exactly when
there is nothing to remove and the source is not around the install path.
-/

variable {dir : Path}

namespace Files

variable {files : Files} {target path : Path}

def ChangesBelow (target : Path) (before after : Files) : Prop :=
  ∀ path, ¬target <+: path → after path = before path

theorem ChangesBelow.trans {before middle after : Files}
    (earlier : ChangesBelow target before middle)
    (later : ChangesBelow target middle after) :
    ChangesBelow target before after :=
  fun path elsewhere =>
    (later path elsewhere).trans (earlier path elsewhere)

theorem changesBelow_removeTree (removal : Removal) :
    ChangesBelow target files (files.removeTree target removal) := by
  intro path elsewhere
  unfold removeTree
  rw [Bool.eq_false_iff.mpr (mt List.isPrefixOf_iff_prefix.mp elsewhere)]
  rfl

theorem changesBelow_removeExistingSkillPath (removal : Removal) :
    ChangesBelow target files
      (files.removeExistingSkillPath target removal).2 := by
  unfold removeExistingSkillPath
  split
  · exact fun _ _ => rfl
  · exact changesBelow_removeTree removal

theorem changesBelow_write (fetched : Fetched) :
    ChangesBelow target files (files.write target fetched) := by
  intro path elsewhere
  unfold write
  rw [Bool.eq_false_iff.mpr (mt List.isPrefixOf_iff_prefix.mp elsewhere)]
  rfl

theorem removeExistingSkillPath_complete :
    (files.removeExistingSkillPath target .complete).1 = none ∧
      (files.removeExistingSkillPath target .complete).2 target = none := by
  unfold removeExistingSkillPath
  split
  · next absent => exact ⟨rfl, absent⟩
  · refine ⟨rfl, ?_⟩
    have itself : target.isPrefixOf target = true :=
      List.isPrefixOf_iff_prefix.mpr List.prefix_rfl
    simp [removeTree, Removal.keeps, itself]

theorem ensureDir_of_not_prefix (elsewhere : ¬path <+: dir) :
    files.ensureDir dir path = files path := by
  unfold ensureDir
  rw [Bool.eq_false_iff.mpr (mt List.isPrefixOf_iff_prefix.mp elsewhere)]
  rfl

end Files

variable {plan : InstallPlan}

namespace SkillManager

variable {manager : SkillManager} {source : Text} {skillsRoot : Path}

open Files

theorem of_planNamed {localSource : Option Path} {cloneSource : Text}
    {repoName : Option Text}
    (planned :
      manager.planNamed source skillsRoot localSource cloneSource repoName =
        .ok plan) :
    plan.localSource = localSource ∧ manager.cloneBranch ≠ some [] ∧
      ∃ name, plan.skillPath = skillsRoot ++ [name] := by
  unfold planNamed at planned
  split at planned
  · contradiction
  · next name =>
      split at planned
      · contradiction
      · split at planned
        · contradiction
        · split at planned
          · contradiction
          · split at planned
            · contradiction
            · next branch =>
                obtain rfl := Except.ok.inj planned
                exact ⟨rfl, branch, name, rfl⟩

section

variable (planned : manager.planInstall source skillsRoot = .ok plan)

include planned

theorem of_planInstall :
    (∀ dir, plan.localSource = some dir ↔
          manager.localCheckedOutSource source = .checkout dir) ∧
      ∃ name, plan.skillPath = skillsRoot ++ [name] := by
  unfold planInstall at planned
  split at planned
  · contradiction
  · split at planned
    · contradiction
    · next dir checkedOut =>
        obtain ⟨isLocal, -, name⟩ := of_planNamed planned
        refine ⟨fun other => ?_, name⟩
        rw [isLocal, checkedOut]
        simp
    · next checkedOut =>
        obtain ⟨isLocal, -, name⟩ := of_planNamed planned
        refine ⟨fun other => ?_, name⟩
        rw [isLocal, checkedOut]
        simp

omit planned in
theorem isFolder_of_checkout
    (checkedOut :
      manager.localCheckedOutSource source = .checkout dir) :
    manager.tree.isFolder dir = true := by
  unfold localCheckedOutSource at checkedOut
  split at checkedOut
  · contradiction
  · split at checkedOut
    · contradiction
    · split at checkedOut
      · contradiction
      · next found named =>
          split at checkedOut
          · contradiction
          · split at checkedOut
            · contradiction
            · rw [← LocalSource.checkout.inj checkedOut]
              exact manager.dirs.isFolder_of_dirOf source found named

omit planned in
theorem changesBelow_cloneSkillSource
    (outcomes : InstallOutcomes) (cloneSource : Text) (target : Path)
    (branches errors : List Text) (files : Files) :
    ChangesBelow target files
      (cloneSkillSource outcomes cloneSource target errors files
        branches).2 := by
  induction branches generalizing errors files with
  | nil => exact fun _ _ => rfl
  | cons branch rest ih =>
    have written : ChangesBelow target files _ :=
      changesBelow_write (outcomes.clone branch)
    unfold cloneSkillSource
    dsimp only
    split
    · exact written
    · split
      · exact written
      · have removed :
            ChangesBelow target
              (files.write target (outcomes.clone branch)) _ :=
          changesBelow_removeExistingSkillPath outcomes.retryRemoval
        split
        · next after found =>
            rw [found] at removed
            exact written.trans removed
        · next after found =>
            rw [found] at removed
            exact (written.trans removed).trans
              (ih _ _)

omit planned in
theorem changesBelow_settleFetch
    {outcomes : InstallOutcomes} {skillPath : Path} {files : Files}
    {fetched : Option Text × Files}
    (changed : ChangesBelow skillPath files fetched.2) :
    ChangesBelow skillPath files
      (settleFetch outcomes skillPath fetched).2 := by
  obtain ⟨error | error, after⟩ := fetched
  · exact changed
  · unfold settleFetch
    dsimp only at changed ⊢
    split
    · exact changed.trans (changesBelow_removeTree outcomes.cleanup)
    · exact changed

omit planned in
theorem changesBelow_fetch (outcomes : InstallOutcomes) (plan : InstallPlan)
    (branch : Option Text) (files : Files) :
    ChangesBelow plan.skillPath files
      (fetch outcomes plan branch files).2 := by
  unfold fetch
  refine changesBelow_settleFetch ?_
  cases plan.localSource with
  | none => exact changesBelow_cloneSkillSource _ _ _ _ _ _
  | some dir => exact changesBelow_write outcomes.sync

theorem changesBelow_install
    (outcomes : InstallOutcomes) :
    ChangesBelow plan.skillPath (manager.tree.entries.lookup)
        (manager.installToSkillsRoot source skillsRoot outcomes).2 ∨
      ChangesBelow plan.skillPath
        (Files.ensureDir manager.tree.entries.lookup skillsRoot)
        (manager.installToSkillsRoot source skillsRoot outcomes).2 := by
  unfold installToSkillsRoot
  dsimp only
  rw [planned]
  dsimp only
  split
  · exact Or.inl fun _ _ => rfl
  · right
    split
    · exact fun _ _ => rfl
    · split
      · exact fun _ _ => rfl
      · next branch _ =>
          have removed :
              ChangesBelow plan.skillPath
                (Files.ensureDir manager.tree.entries.lookup skillsRoot) _ :=
            changesBelow_removeExistingSkillPath outcomes.removal
          split
          · next error after found =>
              rw [found] at removed
              exact removed
          · next after found =>
              rw [found] at removed
              exact removed.trans (changesBelow_fetch outcomes plan branch _)

/-- Every program ends in a failure, after what was there is removed. -/
def failing : InstallOutcomes where
  branchCheck := fun _ => none
  currentBranch := .ok none
  removal := .complete
  rsyncAvailable := true
  sync := ⟨[], some []⟩
  clone := fun _ => ⟨[], some []⟩
  retryRemoval := .complete
  cleanup := .complete

/-- A copy starts with the directory that it copies to. -/
def copying : InstallOutcomes :=
  { failing with sync := ⟨[([], .folder)], none⟩ }

omit planned in
theorem cloneSkillSource_failing
    (cloneSource : Text) (target : Path) (branches errors : List Text)
    {files : Files} (absent : files target = none) :
    ∃ error,
      (cloneSkillSource failing cloneSource target errors files
          branches).1 = some error ∧
        (cloneSkillSource failing cloneSource target errors files
          branches).2 target = none := by
  induction branches generalizing errors files with
  | nil => exact ⟨_, rfl, absent⟩
  | cons branch rest ih =>
    have written :
        files.write target (failing.clone branch) target = none := by
      unfold Files.write
      split
      · exact absent
      · exact absent
    unfold cloneSkillSource
    dsimp only [failing]
    split
    · exact ⟨_, rfl, written⟩
    · obtain ⟨noError, gone⟩ :=
        @removeExistingSkillPath_complete
          (files.write target ⟨[], some []⟩) target
      split
      · next cleanup after found =>
          rw [found] at noError
          contradiction
      · next after found =>
          rw [found] at gone
          exact ih _ gone

omit planned in
theorem fetch_failing (plan : InstallPlan) (branch : Option Text)
    {files : Files} (absent : files plan.skillPath = none) :
    ∃ error,
      (fetch failing plan branch files).1 = .fetchFailed error ∧
        (fetch failing plan branch files).2 plan.skillPath = none := by
  have settled {fetched : Option Text × Files} {error : Text}
      (failed : fetched.1 = some error)
      (gone : fetched.2 plan.skillPath = none) :
      (settleFetch failing plan.skillPath fetched).1 =
          .fetchFailed error ∧
        (settleFetch failing plan.skillPath fetched).2 plan.skillPath =
          none := by
    obtain ⟨found, after⟩ := fetched
    obtain rfl : found = some error := failed
    unfold settleFetch
    dsimp only at gone ⊢
    rw [gone]
    exact ⟨rfl, gone⟩
  unfold fetch
  cases plan.localSource with
  | none =>
    obtain ⟨error, failed, gone⟩ :=
      cloneSkillSource_failing plan.cloneSource plan.skillPath _ [] absent
    exact ⟨error, settled failed gone⟩
  | some dir =>
    refine ⟨_, settled rfl ?_⟩
    change files.write plan.skillPath failing.sync plan.skillPath = none
    unfold Files.write
    split
    · exact absent
    · exact absent

omit planned in
theorem branchToClone_failing (plan : InstallPlan) (files : Files) :
    ∃ branch, manager.branchToClone failing plan files = .ok branch := by
  unfold branchToClone
  split
  · split
    · exact ⟨_, rfl⟩
    · exact ⟨_, rfl⟩
  · exact ⟨_, rfl⟩

theorem install_eq_fetch {outcomes : InstallOutcomes} {branch : Option Text}
    (checked : manager.cloneBranch.bind outcomes.branchCheck = none)
    (contained :
      isPathContained (Files.ensureDir manager.tree.entries.lookup skillsRoot)
        plan.skillPath skillsRoot = true)
    (chosen :
      manager.branchToClone outcomes plan
          (Files.ensureDir manager.tree.entries.lookup skillsRoot) =
        .ok branch)
    (removal : outcomes.removal = .complete) :
    manager.installToSkillsRoot source skillsRoot outcomes =
      fetch outcomes plan branch
        ((Files.ensureDir manager.tree.entries.lookup
          skillsRoot).removeExistingSkillPath plan.skillPath .complete).2 := by
  unfold installToSkillsRoot
  dsimp only
  rw [planned]
  dsimp only
  rw [checked]
  dsimp only
  rw [contained, chosen, removal]
  dsimp only
  have noError :=
    (@removeExistingSkillPath_complete
      (Files.ensureDir manager.tree.entries.lookup skillsRoot)
      plan.skillPath).1
  rw [if_neg (by simp)]
  split
  · next error after found =>
      rw [found] at noError
      contradiction
  · next after found =>
      rw [found]

theorem ensureDir_skillPath {path : Path}
    (below : plan.skillPath <+: path) :
    Files.ensureDir manager.tree.entries.lookup skillsRoot path =
      manager.tree.entries.lookup path := by
  obtain ⟨-, name, named⟩ := of_planInstall planned
  refine ensureDir_of_not_prefix fun above => ?_
  have tooLong := (below.trans above).length_le
  rw [named, List.length_append, List.length_singleton] at tooLong
  exact Nat.not_succ_le_self _ tooLong

def Contained
    (manager : SkillManager) (skillsRoot : Path) (plan : InstallPlan) :
    Prop :=
  manager.tree.entries.lookup plan.skillPath = none ∨ skillsRoot ≠ []

/--
A local source is never altered; and the installed tree is only ever replaced by
a call that has the new one.
-/
structure ProtectsTrees
    (manager : SkillManager) (source : Text) (skillsRoot : Path) :
    Prop where
  localSource :
    ∀ outcomes dir,
      manager.localCheckedOutSource source = .checkout dir →
      ∀ path,
        dir <+: path →
          (manager.installToSkillsRoot source skillsRoot outcomes).2 path =
            manager.tree.entries.lookup path
  failedFetch :
    ∀ outcomes plan error,
      manager.planInstall source skillsRoot = .ok plan →
      manager.tree.entries.lookup plan.skillPath ≠ none →
      (manager.installToSkillsRoot source skillsRoot outcomes).1 =
          .fetchFailed error →
      ∀ path,
        plan.skillPath <+: path →
          (manager.installToSkillsRoot source skillsRoot outcomes).2 path =
            manager.tree.entries.lookup path
  replaced :
    ∀ outcomes plan,
      manager.planInstall source skillsRoot = .ok plan →
      manager.tree.entries.lookup plan.skillPath ≠ none →
      (manager.installToSkillsRoot source skillsRoot outcomes).1 ≠
          .fetched →
      ∀ path,
        plan.skillPath <+: path →
          (manager.installToSkillsRoot source skillsRoot outcomes).2 path =
            manager.tree.entries.lookup path

/--
What passes the checks finds nothing at its path, and is not a source around
that path.
-/
def InstallsBeside
    (manager : SkillManager) (source : Text) (skillsRoot : Path) : Prop :=
  ∀ plan,
    manager.planInstall source skillsRoot = .ok plan →
    manager.Contained skillsRoot plan →
      manager.tree.entries.lookup plan.skillPath = none ∧
        ∀ dir, plan.localSource = some dir → ¬dir <+: plan.skillPath

theorem isPathContained_iff :
    isPathContained (Files.ensureDir manager.tree.entries.lookup skillsRoot)
        plan.skillPath skillsRoot = true ↔
      manager.Contained skillsRoot plan := by
  unfold isPathContained Contained
  rw [ensureDir_skillPath planned List.prefix_rfl, Bool.or_eq_true,
    decide_eq_true_eq, decide_eq_true_eq]

theorem install_failing
    (contained : manager.Contained skillsRoot plan) :
    ∃ error,
      (manager.installToSkillsRoot source skillsRoot failing).1 =
          .fetchFailed error ∧
        (manager.installToSkillsRoot source skillsRoot failing).2
          plan.skillPath = none := by
  obtain ⟨branch, chosen⟩ :=
    manager.branchToClone_failing plan
      (Files.ensureDir manager.tree.entries.lookup skillsRoot)
  have checked : manager.cloneBranch.bind failing.branchCheck = none := by
    cases manager.cloneBranch <;> rfl
  rw [install_eq_fetch planned checked
    ((isPathContained_iff planned).mpr contained) chosen rfl]
  exact fetch_failing plan branch removeExistingSkillPath_complete.2

/-- A copy leaves the directory that it started with. -/
theorem install_copying
    (contained : manager.Contained skillsRoot plan)
    (isLocal : plan.localSource = some dir) :
    (manager.installToSkillsRoot source skillsRoot copying).2
      plan.skillPath = some .folder := by
  obtain ⟨branch, chosen⟩ :=
    manager.branchToClone_failing plan
      (Files.ensureDir manager.tree.entries.lookup skillsRoot)
  have checked : manager.cloneBranch.bind copying.branchCheck = none := by
    cases manager.cloneBranch <;> rfl
  rw [install_eq_fetch planned checked
    ((isPathContained_iff planned).mpr contained) chosen rfl]
  unfold fetch
  rw [isLocal]
  have itself : plan.skillPath.isPrefixOf plan.skillPath = true :=
    List.isPrefixOf_iff_prefix.mpr List.prefix_rfl
  simp [syncLocalSkillSource, settleFetch, Files.write, copying, itself,
    Entries.lookup]

/-- A path that is not contained is refused, and nothing is done. -/
theorem install_of_not_contained
    (outside : ¬manager.Contained skillsRoot plan)
    (outcomes : InstallOutcomes) (path : Path) :
    (manager.installToSkillsRoot source skillsRoot outcomes).2 path =
      manager.tree.entries.lookup path := by
  have refused := mt (isPathContained_iff planned).mp outside
  obtain ⟨present, root⟩ := not_or.mp outside
  obtain rfl := not_not.mp root
  have same :
      Files.ensureDir manager.tree.entries.lookup [] path =
        manager.tree.entries.lookup path := by
    by_cases top : path = []
    · subst top
      obtain ⟨-, name, named⟩ := of_planInstall planned
      rw [named, List.nil_append] at present
      have isFolder : manager.tree.isFolder [] = true :=
        @FileTree.isFolder_of_lookup _ _ _ manager.tree [] name present
      unfold FileTree.isFolder isFolderOf at isFolder
      unfold Files.ensureDir
      split
      · cases top : manager.tree.entries.lookup [] with
        | none =>
          rw [top] at isFolder
          contradiction
        | some node => rfl
      · rfl
    · exact ensureDir_of_not_prefix (mt List.prefix_nil.mp top)
  unfold installToSkillsRoot
  dsimp only
  rw [planned]
  dsimp only
  split
  · rfl
  · rw [if_pos (by simpa using refused)]
    exact same

theorem install_localSource {path : Path}
    (checkedOut : manager.localCheckedOutSource source = .checkout dir)
    (absent : manager.tree.entries.lookup plan.skillPath = none)
    (beside : ¬dir <+: plan.skillPath)
    (outcomes : InstallOutcomes) (inside : dir <+: path) :
    (manager.installToSkillsRoot source skillsRoot outcomes).2 path =
      manager.tree.entries.lookup path := by
  have elsewhere : ¬plan.skillPath <+: path := by
    intro below
    rcases List.prefix_or_prefix_of_prefix inside below with
      around | ⟨rest, rfl⟩
    · exact beside around
    · have isFolder :=
        FileTree.isFolder_of_append (isFolder_of_checkout checkedOut)
      unfold FileTree.isFolder isFolderOf at isFolder
      rw [absent] at isFolder
      contradiction
  rcases changesBelow_install planned outcomes with same | same
  · exact same path elsewhere
  · rw [same path elsewhere]
    refine ensureDir_of_not_prefix fun above => beside ?_
    obtain ⟨-, name, named⟩ := of_planInstall planned
    rw [named]
    exact (inside.trans above).trans (List.prefix_append skillsRoot [name])

end

/--
The trees are protected exactly when an install finds nothing to remove and is
not inside of its own source.
-/
theorem protectsTrees_iff
    (manager : SkillManager) (source : Text) (skillsRoot : Path) :
    manager.ProtectsTrees source skillsRoot ↔
      manager.InstallsBeside source skillsRoot := by
  constructor
  · intro protects plan planned contained
    obtain ⟨isLocal, -⟩ := of_planInstall planned
    have absent : manager.tree.entries.lookup plan.skillPath = none := by
      by_contra present
      obtain ⟨error, failed, gone⟩ := install_failing planned contained
      have kept :=
        protects.failedFetch failing plan error planned present failed
          plan.skillPath List.prefix_rfl
      exact present (kept.symm.trans gone)
    refine ⟨absent, fun dir isDir around => ?_⟩
    have copied := install_copying planned contained isDir
    have kept :=
      protects.localSource copying dir ((isLocal dir).mp isDir)
        plan.skillPath around
    rw [kept, absent] at copied
    contradiction
  · intro beside
    have kept (outcomes : InstallOutcomes) (plan : InstallPlan)
        (planned : manager.planInstall source skillsRoot = .ok plan)
        (present : manager.tree.entries.lookup plan.skillPath ≠ none)
        (path : Path) :
        (manager.installToSkillsRoot source skillsRoot outcomes).2 path =
          manager.tree.entries.lookup path :=
      install_of_not_contained planned
        (fun contained => present (beside plan planned contained).1) outcomes
        path
    refine ⟨?_, fun outcomes plan _ planned present _ path _ =>
      kept outcomes plan planned present path,
      fun outcomes plan planned present _ path _ =>
        kept outcomes plan planned present path⟩
    intro outcomes dir checkedOut path inside
    cases planned : manager.planInstall source skillsRoot with
    | error error =>
      unfold installToSkillsRoot
      dsimp only
      rw [planned]
    | ok plan =>
      by_cases contained : manager.Contained skillsRoot plan
      · obtain ⟨absent, notAround⟩ := beside plan planned contained
        have isDir := ((of_planInstall planned).1 dir).mpr checkedOut
        exact install_localSource planned checkedOut absent
          (notAround dir isDir) outcomes inside
      · exact install_of_not_contained planned contained outcomes path

/-- An installed skill that is a checkout with a version. -/
def checkoutTree : FileTree Text Text where
  entries :=
    [([], .folder), ([['h']], .folder), ([['h'], "foo".toList], .folder),
      ([['h'], "foo".toList, ".git".toList], .folder),
      ([['h'], "foo".toList, ".env".toList], .file "VERSION=1".toList)]
  closed := by decide

/-- An installer that may be given the checkout by its path. -/
def checkoutManager : SkillManager where
  tree := checkoutTree
  dirs :=
    { dirOf := fun source =>
        if source = "/h/foo".toList then some [['h'], "foo".toList]
        else none
      isFolder_of_dirOf := by
        intro source dir named
        split at named
        · rw [← Option.some.inj named]
          decide
        · contradiction }
  cloneBranch := none

/--
Installing the installed checkout over itself deletes it, when the copy then
fails; and so does a clone of the same name that fails.
-/
theorem install_deletes_checkout :
    let env := [['h'], "foo".toList, ".env".toList]
    checkoutTree.content? env = some "VERSION=1".toList ∧
      (checkoutManager.installToSkillsRoot "/h/foo".toList [['h']]
        failing).2 env = none ∧
      (checkoutManager.installToSkillsRoot "foo".toList [['h']]
        failing).2 env = none ∧
      ¬checkoutManager.ProtectsTrees "/h/foo".toList [['h']] ∧
      ¬checkoutManager.ProtectsTrees "foo".toList [['h']] := by
  have gone :
      (checkoutManager.installToSkillsRoot "/h/foo".toList [['h']]
        failing).2 [['h'], "foo".toList, ".env".toList] = none := by
    decide +kernel
  have cloned :
      (checkoutManager.installToSkillsRoot "foo".toList [['h']]
        failing).2 [['h'], "foo".toList, ".env".toList] = none := by
    decide +kernel
  refine ⟨by decide +kernel, gone, cloned, fun protects => ?_,
    fun protects => ?_⟩
  · have kept :=
      protects.localSource failing [['h'], "foo".toList] (by decide +kernel)
        [['h'], "foo".toList, ".env".toList] (by decide)
    rw [gone] at kept
    exact absurd kept.symm (by decide +kernel)
  · have kept :=
      protects.replaced failing
        ⟨none, "https://github.com/manif3station/foo".toList,
          [['h'], "foo".toList]⟩
        (by rfl) (by decide +kernel) (by decide +kernel)
        [['h'], "foo".toList, ".env".toList] (by decide)
    rw [cloned] at kept
    exact absurd kept.symm (by decide +kernel)

end SkillManager

end DeveloperDashboard.Skills
