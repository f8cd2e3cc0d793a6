import DeveloperDashboard.Helpers.KeptHelpers

namespace DeveloperDashboard.Helpers

open Library Perl Files

/-!
# What each procedure leaves

One rule for each procedure of the staging: wherever it is cut off everything
is kept, and what holds when it returns.
-/

variable {tree : HelperTree} {path : HelperPath} {before : HelperWorld}
  {names : List Text}

namespace HelperHost

variable (host : HelperHost) (wasStaged : Text → Bytes → Prop)
variable (start : HelperTree)

/-- A procedure that dies leaves no helper unfinished. -/
def Ends {Result : Type} (fits : Result → HelperWorld → Prop) :
    Except Text Result → HelperWorld → Prop
  | .ok value, world => fits value world
  | .error _, world => host.Settled wasStaged start world.tree

/-- A procedure that keeps everything, and what holds when it returns. -/
abbrev Safe {Result : Type} (fits : Result → HelperWorld → Prop)
    (procedure : Staging Result) (world : HelperWorld) : Prop :=
  Procedure.CrashSafe helperEffect finishesHelpers
    (host.Kept wasStaged start) (host.Ends wasStaged start fits)
    procedure.run world

variable {host} {wasStaged} {start} {Result Other : Type}
variable {fits : Result → HelperWorld → Prop} {world : HelperWorld}

section

variable (settled : host.Settled wasStaged start world.tree)

include settled

theorem safe_pure {value : Result}
    (holds : fits value world) :
    host.Safe wasStaged start fits (pure value) world :=
  .finish settled.kept holds

theorem safe_throw {reason : Text} :
    host.Safe wasStaged start fits (throw reason) world :=
  .finish settled.kept settled

omit settled in
theorem safe_bind {first : Staging Result} {rest : Result → Staging Other}
    {between : Result → HelperWorld → Prop}
    {fits : Other → HelperWorld → Prop}
    (safe : host.Safe wasStaged start between first world)
    (next :
      ∀ value after,
        between value after →
          host.Safe wasStaged start fits (rest value) after) :
    host.Safe wasStaged start fits (first >>= rest) world := by
  refine Procedure.CrashSafe.bindExcept (.mono ?_ safe)
  rintro (reason | value) after ended
  · refine ⟨by rintro value ⟨⟩, ?_⟩
    rintro failure ⟨⟩
    exact .finish (SettledBut.kept ended) ended
  · refine ⟨?_, by rintro failure ⟨⟩⟩
    rintro other ⟨⟩
    exact next value after ended

omit settled in
theorem safe_mono {first : Staging Result}
    {stronger : Result → HelperWorld → Prop}
    (implies : ∀ value after, stronger value after → fits value after)
    (safe : host.Safe wasStaged start stronger first world) :
    host.Safe wasStaged start fits first world := by
  refine .mono ?_ safe
  rintro (reason | value) after ended
  · exact ended
  · exact implies value after ended

omit settled in
/-- Making a folder above the helpers keeps everything. -/
theorem SettledBut.makeFolder {made : HelperTree}
    (settled : host.Settled wasStaged start tree)
    (makes : tree.makeFolder path = some made)
    (short : path.length ≤ host.installRoot.length) :
    host.Settled wasStaged start made := by
  have same : SameBut path tree made := by
    intro other different
    rw [FileTree.lookup_makeFolder makes, if_neg different]
  refine settled.sameBut same ?_ ?_ ?_
  · intro isUser
    have kept := settled.userFiles path isUser
    obtain ⟨name, content, _, ⟨executable, found⟩, _⟩ := isUser
    rw [found] at kept
    rcases FileTree.lookup_of_makeFolder makes with absent | present
    · rw [absent] at kept
      cases kept
    · rw [present] at kept
      cases kept
  · intro name _
    exact host.helperPath_ne_of_length name short
  · intro name _
    right
    rw [FileTree.lookup_makeFolder makes, if_pos rfl]

/-- Folders that are there stay, and some more are there. -/
def HasFolders (paths : List HelperPath) (tree after : HelperTree) : Prop :=
  (∀ path ∈ paths, after.isFolder path = true) ∧
    ∀ path, tree.isFolder path = true → after.isFolder path = true

omit settled in
theorem hasFolders_makeFolder {made : HelperTree}
    (makes : tree.makeFolder path = some made) :
    HasFolders [path] tree made := by
  have isMade : made.isFolder path = true := by
    rw [FileTree.isFolder_iff_lookup, FileTree.lookup_makeFolder makes,
      if_pos rfl]
  constructor
  · intro other isPath
    rw [List.mem_singleton.mp isPath]
    exact isMade
  · intro other isFolder
    by_cases same : other = path
    · rw [same]
      exact isMade
    · rw [← isFolder]
      refine FileTree.isFolder_congr ?_
      rw [FileTree.lookup_makeFolder makes, if_neg same]

/-- The rule for `make_path`. -/
theorem safe_makePath {paths : List HelperPath}
    (short : ∀ path ∈ paths, path.length ≤ host.installRoot.length) :
    host.Safe wasStaged start
      (fun _ after =>
        host.Settled wasStaged start after.tree ∧
          HasFolders paths world.tree after.tree)
      (makePath paths) world := by
  induction paths generalizing world with
  | nil =>
    refine safe_pure settled ⟨settled, ?_, ?_⟩
    · intro path isPath
      cases isPath
    · intro path isFolder
      exact isFolder
  | cons path rest ih =>
    have shortRest :
        ∀ path ∈ rest, path.length ≤ host.installRoot.length := by
      intro other member
      exact short other (List.mem_cons_of_mem _ member)
    refine safe_test rfl settled.kept ?_
    cases isFolder : world.tree.isFolder path with
    | true =>
      refine safe_mono ?_ (ih settled shortRest)
      rintro _ after ⟨settledAfter, made, kept⟩
      refine ⟨settledAfter, fun other member => ?_, kept⟩
      rcases List.mem_cons.mp member with rfl | later
      · exact kept _ isFolder
      · exact made other later
    | false =>
      change host.Safe wasStaged start _
        (callOrDie (.makeFolder path) _ >>= fun _ => makePath rest) world
      unfold Safe
      rw [run_callOrDie]
      refine Procedure.CrashSafe.performAtOnce ?_ settled.kept ?_
      · intro outcome after shown
        cases outcome <;> simp [helperEffect] at shown
      · intro outcome after answer ended _
        cases outcome with
        | shows length => cases ended
        | fails reason =>
          cases ended
          exact .finish settled.kept settled
        | succeeds =>
          obtain ⟨tree, makes, same⟩ := Option.map_eq_some_iff.mp ended
          cases same
          have settledMade :=
            settled.makeFolder makes (short path List.mem_cons_self)
          obtain ⟨isMade, stays⟩ := hasFolders_makeFolder makes
          refine safe_mono ?_
            (@ih
              (world.record (.made path) tree) settledMade shortRest)
          rintro _ after ⟨settledAfter, made, kept⟩
          refine ⟨settledAfter, fun other member => ?_,
            fun other isFolder => kept other (stays other isFolder)⟩
          rcases List.mem_cons.mp member with rfl | later
          · exact kept _ (isMade _ List.mem_cons_self)
          · exact made other later

omit settled in
theorem leadingPaths_spec (given : path ≠ []) :
    path ∈ leadingPaths path ∧
      ∀ other ∈ leadingPaths path, other.length ≤ path.length := by
  unfold leadingPaths
  constructor
  · have positive := List.length_pos_iff.mpr given
    refine List.mem_map.mpr ⟨path.length - 1, ?_, ?_⟩
    · exact List.mem_range.mpr (by omega)
    · rw [Nat.sub_add_cancel positive, List.take_length]
  · intro other member
    obtain ⟨index, _, rfl⟩ := List.mem_map.mp member
    rw [List.length_take]
    exact Nat.min_le_right _ _

theorem safe_ensureDir
    (given : path ≠ []) (short : path.length ≤ host.installRoot.length) :
    host.Safe wasStaged start
      (fun _ after =>
        host.Settled wasStaged start after.tree ∧
          after.tree.isFolder path = true)
      (ensureDir path) world := by
  refine safe_test rfl settled.kept ?_
  cases isFolder : world.tree.isFolder path with
  | true => exact safe_pure settled ⟨settled, isFolder⟩
  | false =>
    obtain ⟨isLeading, bounded⟩ := leadingPaths_spec given
    refine safe_mono ?_ (safe_makePath settled fun other member =>
      Nat.le_trans (bounded other member) short)
    rintro _ after ⟨settledAfter, made, _⟩
    exact ⟨settledAfter, made path isLeading⟩

theorem safe_ensureRoots :
    host.Safe wasStaged start
      (fun _ after =>
        host.Settled wasStaged start after.tree ∧
          after.tree.isFolder host.installRoot = true)
      host.ensureRoots world := by
  have lengths :
      host.parentRoot.length ≤ host.installRoot.length := by
    simp [installRoot]
  refine safe_bind
    (safe_ensureDir settled (by simp [parentRoot]) lengths) ?_
  rintro _ after ⟨settledAfter, _⟩
  exact safe_ensureDir settledAfter (by simp [installRoot]) (Nat.le_refl _)

end

/-- Trees that differ at a helper and its prepared file at most. -/
def SameButHelper (host : HelperHost) (name suffix : Text)
    (tree after : HelperTree) : Prop :=
  ∀ path,
    path ≠ host.helperPath name → path ≠ host.tempPath name suffix →
      after.entries.lookup path = tree.entries.lookup path

/-- A name whose place and prepared file are not the user's. -/
structure Writable (host : HelperHost) (wasStaged : Text → Bytes → Prop)
    (start : HelperTree) (name suffix : Text) : Prop where
  isManaged : name ∈ managedNames
  place : ¬ IsUserFile wasStaged start (host.helperPath name)
  temp : ¬ IsUserFile wasStaged start (host.tempPath name suffix)

variable {name suffix : Text} {content : Bytes}

section

variable (writable : Writable host wasStaged start name suffix)

include writable

theorem Writable.sameBut
    {after : HelperTree} (settled : host.Settled wasStaged start tree)
    (same : SameBut (host.tempPath name suffix) tree after) :
    host.Settled wasStaged start after := by
  refine settled.sameBut same writable.temp ?_ ?_
  · intro other isManaged
    exact (host.tempPath_ne_helperPath name suffix
      (not_mem_dot isManaged)).symm
  · intro other isTemp
    exact absurd isTemp (host.flatPath_ne_in_installRoot other _)

/-- A change of the helper and its prepared file leaves the other helpers. -/
theorem Writable.sameButHelper
    {unfinished : Option HelperPath} {after : HelperTree}
    (settled : host.SettledBut wasStaged start unfinished tree)
    (same : SameButHelper host name suffix tree after)
    (only :
      ∀ path, unfinished = some path → path = host.helperPath name) :
    host.SettledBut wasStaged start (some (host.helperPath name)) after where
  userFiles := by
    intro path isUser
    have notPlace : path ≠ host.helperPath name := by
      rintro rfl
      exact writable.place isUser
    have notTemp : path ≠ host.tempPath name suffix := by
      rintro rfl
      exact writable.temp isUser
    rw [same path notPlace notTemp]
    exact settled.userFiles path isUser
  places := by
    intro other isManaged finished
    have notPlace : host.helperPath other ≠ host.helperPath name := by
      intro isName
      exact finished (congrArg some isName.symm)
    have notTemp :=
      host.tempPath_ne_helperPath name suffix (not_mem_dot isManaged)
    have here := same _ notPlace notTemp.symm
    rw [here]
    refine (settled.places other isManaged ?_).imp_right
      (IsStaged.congr here)
    intro isUnfinished
    exact notPlace (only _ isUnfinished)
  flats := by
    intro other
    rw [same _ (host.flatPath_ne_in_installRoot other _)
      (host.flatPath_ne_in_installRoot other _)]
    exact settled.flats other

/-- The helper is in place, and has yet to be made executable. -/
structure Placed (host : HelperHost) (wasStaged : Text → Bytes → Prop)
    (start : HelperTree) (name : Text) (content : Bytes)
    (world : HelperWorld) : Prop where
  settled :
    host.SettledBut wasStaged start (some (host.helperPath name)) world.tree
  isLast :
    world.changes.getLast? = some (.placed (host.helperPath name))
  found : HasContent world.tree (host.helperPath name) content

omit writable in
theorem Placed.kept (placed : Placed host wasStaged start name content world) :
    host.Kept wasStaged start world := by
  refine ⟨_, placed.settled, ?_⟩
  rintro path ⟨⟩
  exact placed.isLast

structure Preparing (host : HelperHost) (wasStaged : Text → Bytes → Prop)
    (start : HelperTree) (name suffix : Text) (before world : HelperWorld) :
    Prop where
  settled : host.Settled wasStaged start world.tree
  same : SameBut (host.tempPath name suffix) before.tree world.tree

abbrev pairAllowed (source target : HelperPath) (world : HelperWorld)
    (call : FileCall) : Outcome → Prop :=
  finishesHelpers world (.pair source target call)

theorem Preparing.safe_call
    {post : Except Text Unit → HelperWorld → Prop} {call : FileCall}
    {next : Answer → FileProcedure Ending}
    (preparing : Preparing host wasStaged start name suffix before world)
    (onSource : OnSource call)
    (answered :
      ∀ after answer,
        Preparing host wasStaged start name suffix before after →
        (∀ bytes content,
          answer = .ok bytes → call = .closeFile .source content →
            HasContent after.tree (host.tempPath name suffix) content) →
          Procedure.CrashSafe
            (pairEffect (host.tempPath name suffix) (host.helperPath name))
            (pairAllowed (host.tempPath name suffix) (host.helperPath name))
            (host.Kept wasStaged start) post (next answer) after) :
    Procedure.CrashSafe
      (pairEffect (host.tempPath name suffix) (host.helperPath name))
      (pairAllowed (host.tempPath name suffix) (host.helperPath name))
      (host.Kept wasStaged start) post (.perform call next) world := by
  have step {middle after : HelperWorld} {outcome : Outcome}
      {answer : Option Answer}
      (preparing : Preparing host wasStaged start name suffix before middle)
      (effect :
        pairEffect (host.tempPath name suffix) (host.helperPath name) middle
          call outcome = some (after, answer)) :
      Preparing host wasStaged start name suffix before after := by
    have same := onSource.sameBut effect
    exact ⟨writable.sameBut preparing.settled same,
      preparing.same.trans same⟩
  refine Procedure.CrashSafe.perform
    (Preparing host wasStaged start name suffix before) preparing
    (fun inside effect _ => step inside effect)
    (fun inside => inside.settled.kept) ?_
  intro middle outcome after answer inside effect _
  refine answered after answer (step inside effect) ?_
  rintro bytes content rfl rfl
  exact hasContent_of_closeFile effect

theorem Preparing.safe_rename {post : Except Text Unit → HelperWorld → Prop}
    {next : Answer → FileProcedure Ending}
    (preparing : Preparing host wasStaged start name suffix before world)
    (prepared :
      HasContent world.tree (host.tempPath name suffix) content)
    (renamed :
      ∀ after,
        Placed host wasStaged start name content after →
        SameButHelper host name suffix before.tree after.tree →
          Procedure.CrashSafe
            (pairEffect (host.tempPath name suffix) (host.helperPath name))
            (pairAllowed (host.tempPath name suffix) (host.helperPath name))
            (host.Kept wasStaged start) post (next (.ok [])) after)
    (failed :
      ∀ reason,
        Procedure.CrashSafe
          (pairEffect (host.tempPath name suffix) (host.helperPath name))
          (pairAllowed (host.tempPath name suffix) (host.helperPath name))
          (host.Kept wasStaged start) post (next (.error reason)) world) :
    Procedure.CrashSafe
      (pairEffect (host.tempPath name suffix) (host.helperPath name))
      (pairAllowed (host.tempPath name suffix) (host.helperPath name))
      (host.Kept wasStaged start) post (.perform .renameFile next) world := by
  refine Procedure.CrashSafe.performAtOnce ?_ preparing.settled.kept ?_
  · intro outcome after shown
    cases outcome <;> simp [pairEffect] at shown
  · intro outcome after answer effect _
    cases outcome with
    | shows length => cases effect
    | fails reason =>
      cases effect
      exact failed reason
    | succeeds =>
      obtain ⟨tree, moved, same⟩ := Option.map_eq_some_iff.mp effect
      cases same
      have different :=
        host.tempPath_ne_helperPath name suffix
          (not_mem_dot writable.isManaged)
      obtain ⟨others, _, atTarget⟩ := lookup_moveFile moved different
      have same :
          SameButHelper host name suffix world.tree tree := by
        intro path notPlace notTemp
        exact others path notTemp notPlace
      obtain ⟨executable, found⟩ := prepared
      refine renamed _ ⟨?_, ?_, executable, atTarget.trans found⟩ ?_
      · exact writable.sameButHelper preparing.settled same
          (by rintro path ⟨⟩)
      · exact List.getLast?_concat
      · intro path notPlace notTemp
        exact (same path notPlace notTemp).trans
          (preparing.same path notTemp)

/-- The rule for `_write_helper_atomically`. -/
theorem Writable.safe_writeHelper
    (settled : host.Settled wasStaged start world.tree) :
    host.Safe wasStaged start
      (fun _ after =>
        Placed host wasStaged start name content after ∧
          SameButHelper host name suffix world.tree after.tree)
      (host.writeHelper name suffix content) world := by
  refine Procedure.CrashSafe.mapCall ?_
  have initially :
      Preparing host wasStaged start name suffix world world :=
    ⟨settled, .refl _ _⟩
  refine initially.safe_call writable .openFile ?_
  rintro opened (reason | _) preparing _
  · exact .finish preparing.settled.kept preparing.settled
  refine preparing.safe_call writable (.printTo content) ?_
  rintro printed answer preparing _
  refine preparing.safe_call writable (.closeFile content) ?_
  rintro closed (reason | bytes) preparing hasContent
  · exact .finish preparing.settled.kept preparing.settled
  refine preparing.safe_rename writable (hasContent bytes content rfl rfl)
    ?_ ?_
  · intro after placed same
    exact .finish placed.kept ⟨placed, same⟩
  · intro reason
    refine preparing.safe_call writable .doesExist ?_
    rintro tested (reason | _) preparing _
    · exact .finish preparing.settled.kept preparing.settled
    · refine preparing.safe_call writable .unlink ?_
      rintro unlinked answer preparing _
      exact .finish preparing.settled.kept preparing.settled

/-- What staging leaves: the helper in place, or done without a change. -/
inductive StagedFrom (host : HelperHost) (wasStaged : Text → Bytes → Prop)
    (start : HelperTree) (name suffix : Text) (before : HelperWorld) :
    Bool → HelperWorld → Prop where
  | written {content : Bytes} {after : HelperWorld} :
      Writable host wasStaged start name suffix →
      host.content? name = some content →
      Placed host wasStaged start name content after →
      SameButHelper host name suffix before.tree after.tree →
      StagedFrom host wasStaged start name suffix before true after
  | left :
      host.Settled wasStaged start before.tree →
      host.Done wasStaged start before.tree name →
      StagedFrom host wasStaged start name suffix before false before

theorem Writable.safe_written
    (settled : host.Settled wasStaged start world.tree)
    (isContent : host.content? name = some content) :
    host.Safe wasStaged start
      (StagedFrom host wasStaged start name suffix world)
      (host.writeHelper name suffix content >>= fun _ => pure true) world := by
  refine safe_bind (writable.safe_writeHelper settled) ?_
  rintro _ after ⟨placed, same⟩
  exact .finish placed.kept (.written writable isContent placed same)

end

theorem Done.safe_left (done : host.Done wasStaged start world.tree name)
    (settled : host.Settled wasStaged start world.tree) :
    host.Safe wasStaged start
      (StagedFrom host wasStaged start name suffix world) (pure false)
      world :=
  safe_pure settled (.left settled done)

theorem done_of_lookup (settled : host.Settled wasStaged start tree)
    (isManaged : name ∈ managedNames)
    (taken :
      tree.entries.lookup (host.helperPath name) =
          start.entries.lookup (host.helperPath name) →
        IsUserFile wasStaged start (host.helperPath name) ∨
          IsIrregular tree (host.helperPath name) ∨
            host.IsStaged tree name) :
    host.Done wasStaged start tree name := by
  rcases settled.places name isManaged (by simp) with kept | isStaged
  · rcases taken kept with isUser | irregular | isStaged
    · exact .inr ⟨kept, .inl isUser⟩
    · exact .inr ⟨kept, .inr irregular⟩
    · exact .inl isStaged
  · exact .inl isStaged

theorem not_isUserFile_of_empty (settled : host.Settled wasStaged start tree)
    (empty :
      ∀ content, HasContent tree path content → content = []) :
    ¬ IsUserFile wasStaged start path := by
  intro isUser
  have kept := settled.userFiles path isUser
  obtain ⟨name, content, _, ⟨executable, found⟩, nonempty, _⟩ := isUser
  exact nonempty (empty content ⟨executable, kept.trans found⟩)

theorem isIrregular_of_regular? (notRegular : regular? tree path = none)
    (present : tree.entries.lookup path ≠ none) : IsIrregular tree path := by
  unfold regular? FileTree.content? at notRegular
  unfold IsIrregular
  cases found : tree.entries.lookup path with
  | none => exact absurd found present
  | some node =>
    rw [found] at notRegular
    cases node with
    | folder => exact .inl rfl
    | file file =>
      cases file with
      | regular content executable => cases notRegular
      | special => exact .inr rfl

theorem Fits.done_of_not_isManaged {existing : Bytes}
    (fits : host.Fits wasStaged start)
    (settled : host.Settled wasStaged start tree)
    (isManaged : name ∈ managedNames)
    (found : HasContent tree (host.helperPath name) existing)
    (nonempty : existing ≠ [])
    (foreign : isDashboardManagedHelper existing name = false) :
    host.Done wasStaged start tree name := by
  refine done_of_lookup settled isManaged fun kept => .inl ?_
  have hasContent :
      HasContent start (host.helperPath name) existing := by
    obtain ⟨executable, found⟩ := found
    exact ⟨executable, kept.symm.trans found⟩
  refine ⟨name, existing, List.getLast?_concat, hasContent, nonempty, ?_⟩
  intro wasStaged
  have recognised :=
    (fits.recognised name _ existing (.staged isManaged) hasContent
      nonempty).mpr wasStaged
  rw [foreign] at recognised
  cases recognised

theorem Fits.done_of_digest {existing : Bytes}
    (fits : host.Fits wasStaged start)
    (settled : host.Settled wasStaged start tree)
    (isManaged : name ∈ managedNames)
    (isContent : host.content? name = some content)
    (found : HasContent tree (host.helperPath name) existing)
    (same : host.digest existing = host.digest content) :
    host.Done wasStaged start tree name := by
  refine done_of_lookup settled isManaged fun kept => .inr (.inr ?_)
  obtain ⟨executable, found⟩ := found
  have atStart := kept.symm.trans found
  obtain rfl :=
    fits.digests name isManaged existing content ⟨executable, atStart⟩
      isContent same
  obtain rfl :=
    fits.executable name isManaged existing executable isContent atStart
  exact ⟨existing, isContent, found⟩

/-- The rule for `_stage_managed_helper`. -/
theorem Fits.safe_stageManagedHelper (fits : host.Fits wasStaged start)
    (isManaged : name ∈ managedNames)
    (temp : ¬ IsUserFile wasStaged start (host.tempPath name suffix))
    (settled : host.Settled wasStaged start world.tree) :
    host.Safe wasStaged start
      (StagedFrom host wasStaged start name suffix world)
      (host.stageManagedHelper name suffix) world := by
  have writable
      (place : ¬ IsUserFile wasStaged start (host.helperPath name)) :
      Writable host wasStaged start name suffix :=
    ⟨isManaged, place, temp⟩
  unfold stageManagedHelper
  cases isContent : host.content? name with
  | none => exact safe_throw settled
  | some content =>
    refine safe_test rfl settled.kept ?_
    cases found : world.tree.entries.lookup (host.helperPath name) with
    | none =>
      refine (writable (not_isUserFile_of_empty settled ?_)).safe_written
        settled isContent
      rintro existing ⟨executable, present⟩
      rw [found] at present
      cases present
    | some node =>
      refine safe_test rfl settled.kept ?_
      cases isRegular : regular? world.tree (host.helperPath name) with
      | none =>
        refine Done.safe_left
          (done_of_lookup settled isManaged fun _ => .inr (.inl ?_))
          settled
        exact isIrregular_of_regular? isRegular (by simp [found])
      | some existing =>
        have hasContent := regular?_eq_some_iff.mp isRegular
        refine safe_test rfl settled.kept ?_
        by_cases empty : existing = []
        · rw [isRegular, empty, decide_eq_true rfl]
          refine (writable
            (not_isUserFile_of_empty settled ?_)).safe_written settled
              isContent
          rintro other hasOther
          rw [← regular?_eq_some_iff, isRegular] at hasOther
          rw [← Option.some.inj hasOther, empty]
        rw [isRegular, decide_eq_false (by simpa using empty)]
        refine safe_readFile hasContent settled.kept ?_
          (fun reason => settled)
        by_cases foreign :
            isDashboardManagedHelper existing name = false
        · rw [foreign]
          exact (fits.done_of_not_isManaged settled isManaged
            hasContent empty foreign).safe_left settled
        rw [Bool.not_eq_false] at foreign
        rw [foreign]
        by_cases same : host.digest existing = host.digest content
        · rw [decide_eq_true same]
          exact (fits.done_of_digest settled isManaged isContent
            hasContent same).safe_left settled
        · rw [decide_eq_false same]
          exact (writable (not_isUserFile_of_isManaged fits settled
            (.staged isManaged) hasContent foreign)).safe_written
              settled isContent

/-- Helpers that are done stay done, and the folder stays. -/
structure Progress (host : HelperHost) (wasStaged : Text → Bytes → Prop)
    (start before after : HelperTree) : Prop where
  done :
    ∀ name ∈ managedNames,
      host.Done wasStaged start before name →
        host.Done wasStaged start after name
  root :
    after.entries.lookup host.installRoot =
      before.entries.lookup host.installRoot

theorem Progress.refl (tree : HelperTree) :
    Progress host wasStaged start tree tree :=
  ⟨fun _ _ done => done, rfl⟩

theorem Progress.trans {before middle after : HelperTree}
    (first : Progress host wasStaged start before middle)
    (second : Progress host wasStaged start middle after) :
    Progress host wasStaged start before after :=
  ⟨fun name isManaged done =>
    second.done name isManaged (first.done name isManaged done),
    second.root.trans first.root⟩

theorem Progress.of_sameButHelper {before after : HelperTree}
    (same : SameButHelper host name suffix before after)
    (done : host.Done wasStaged start after name) :
    Progress host wasStaged start before after where
  done := by
    intro other isManaged doneBefore
    by_cases isName : other = name
    · rw [isName]
      exact done
    · refine doneBefore.congr (same _ ?_ ?_)
      · exact fun samePath => isName (host.helperPath_inj.mp samePath)
      · exact (host.tempPath_ne_helperPath name suffix
          (not_mem_dot isManaged)).symm
  root := by
    refine same _ ?_ ?_
    · exact (host.helperPath_ne_of_length name (Nat.le_refl _)).symm
    · exact (host.helperPath_ne_of_length _ (Nat.le_refl _)).symm

structure GetsDone (host : HelperHost) (wasStaged : Text → Bytes → Prop)
    (start : HelperTree) (names : List Text) (before after : HelperWorld) :
    Prop where
  settled : host.Settled wasStaged start after.tree
  done : ∀ name ∈ names, host.Done wasStaged start after.tree name
  progress : Progress host wasStaged start before.tree after.tree

theorem Placed.getsDone
    (placed : Placed host wasStaged start name content world)
    (same : SameButHelper host name suffix before.tree world.tree)
    (writable : Writable host wasStaged start name suffix)
    (isContent : host.content? name = some content)
    (changed : setExecutable world.tree (host.helperPath name) = some tree) :
    GetsDone host wasStaged start [name] before
      (world.record (.madeExecutable (host.helperPath name)) tree) := by
  obtain ⟨sameBut, found⟩ := sameBut_of_setExecutable changed placed.found
  have isStaged : host.IsStaged tree name := ⟨content, isContent, found⟩
  have sameHelper : SameButHelper host name suffix world.tree tree := by
    intro path notPlace _
    exact sameBut path notPlace
  refine ⟨?_, ?_, ?_⟩
  · refine SettledBut.finish (writable.sameButHelper placed.settled
      sameHelper ?_) isStaged
    rintro path ⟨⟩
    rfl
  · intro other isName
    rw [List.mem_singleton.mp isName]
    exact .inl isStaged
  · have sameBefore :
        SameButHelper host name suffix before.tree tree := by
      intro path notPlace notTemp
      exact (sameHelper path notPlace notTemp).trans
        (same path notPlace notTemp)
    exact .of_sameButHelper sameBefore (.inl isStaged)

/-- The rule for staging a helper and making it executable. -/
theorem Fits.safe_stageAndSecure (fits : host.Fits wasStaged start)
    (isManaged : name ∈ managedNames)
    (temp : ¬ IsUserFile wasStaged start (host.tempPath name suffix))
    (settled : host.Settled wasStaged start world.tree) :
    host.Safe wasStaged start
      (fun _ after => GetsDone host wasStaged start [name] world after)
      (host.stageAndSecure name suffix) world := by
  refine safe_bind (fits.safe_stageManagedHelper isManaged temp settled) ?_
  intro isWritten after staged
  cases staged with
  | left settled done =>
    refine safe_pure settled ⟨settled, fun other isName => ?_, .refl _⟩
    rw [List.mem_singleton.mp isName]
    exact done
  | written writable isContent placed same =>
    change host.Safe wasStaged start _
      (callOrDie (.makeExecutable (host.helperPath name)) _ >>=
        fun _ => pure true) after
    unfold Safe
    rw [run_callOrDie]
    refine Procedure.CrashSafe.performAtOnce ?_ placed.kept ?_
    · intro outcome later shown
      cases outcome <;> simp [helperEffect] at shown
    · intro outcome later answer ended isAllowed
      obtain rfl : outcome = .succeeds := isAllowed
      obtain ⟨tree, changed, sameWorld⟩ := Option.map_eq_some_iff.mp ended
      cases sameWorld
      have getsDone := placed.getsDone same writable isContent changed
      exact .finish getsDone.settled.kept getsDone

theorem GetsDone.append {others : List Text} {middle after : HelperWorld}
    (managed : ∀ name ∈ names, name ∈ managedNames)
    (first : GetsDone host wasStaged start names before middle)
    (second : GetsDone host wasStaged start others middle after) :
    GetsDone host wasStaged start (names ++ others) before after where
  settled := second.settled
  done := by
    intro name isName
    rcases List.mem_append.mp isName with isFirst | isSecond
    · exact second.progress.done name (managed name isFirst)
        (first.done name isFirst)
    · exact second.done name isSecond
  progress := first.progress.trans second.progress

/-- The rule for the loop of `ensure_helpers`. -/
theorem Fits.safe_stageNames {suffix : Text → Text}
    (fits : host.Fits wasStaged start)
    (managed : ∀ name ∈ names, name ∈ managedNames)
    (temps :
      ∀ name ∈ managedNames,
        ¬ IsUserFile wasStaged start (host.tempPath name (suffix name)))
    (settled : host.Settled wasStaged start world.tree) :
    host.Safe wasStaged start
      (fun _ after => GetsDone host wasStaged start names world after)
      (host.stageNames suffix names) world := by
  induction names generalizing world with
  | nil =>
    refine safe_pure settled ⟨settled, fun name isName => ?_, .refl _⟩
    cases isName
  | cons name rest ih =>
    obtain ⟨isManaged, managedRest⟩ := List.forall_mem_cons.mp managed
    refine safe_bind
      (fits.safe_stageAndSecure isManaged (temps name isManaged)
        settled) ?_
    intro isWritten middle here
    refine safe_bind (ih managedRest here.settled) ?_
    intro written after later
    refine safe_pure later.settled
      (GetsDone.append (fun other isName => ?_) here later)
    rw [List.mem_singleton.mp isName]
    exact isManaged

structure Removed (host : HelperHost) (wasStaged : Text → Bytes → Prop)
    (start : HelperTree) (target : HelperPath) (name : Text)
    (before after : HelperWorld) : Prop where
  settled : host.Settled wasStaged start after.tree
  gone : NotManaged after.tree target name
  same : SameBut target before.tree after.tree

structure Removable (host : HelperHost) (target : HelperPath)
    (name : Text) : Prop where
  isPlace : host.IsHelperPlace name target
  notManaged : ∀ other ∈ managedNames, host.helperPath other ≠ target

theorem Removable.unlink {target : HelperPath}
    (removable : Removable host target name)
    (fits : host.Fits wasStaged start)
    (settled : host.Settled wasStaged start world.tree)
    (found : HasContent world.tree target content)
    (isManaged : isDashboardManagedHelper content name = true)
    (unlinked : unlinkFile world.tree target = some tree) :
    Removed host wasStaged start target name world
      (world.record (.removed target) tree) := by
  obtain ⟨same, absent⟩ := sameBut_of_unlinkFile unlinked
  refine ⟨?_, ?_, same⟩
  · refine settled.sameBut same
      (not_isUserFile_of_isManaged fits settled removable.isPlace found
        isManaged) removable.notManaged ?_
    intro other _
    exact .inl absent
  · rintro other ⟨executable, present⟩
    rw [show tree.entries.lookup target = _ from present] at absent
    cases absent

theorem Removable.safe_removeManaged {target : HelperPath}
    (removable : Removable host target name)
    (fits : host.Fits wasStaged start)
    (settled : host.Settled wasStaged start world.tree) :
    host.Safe wasStaged start
      (fun _ after => Removed host wasStaged start target name world after)
      (removeManaged target name) world := by
  have leaves (gone : NotManaged world.tree target name) :
      host.Safe wasStaged start
        (fun _ after => Removed host wasStaged start target name world after)
        (pure false) world :=
    safe_pure settled ⟨settled, gone, .refl _ _⟩
  refine safe_test rfl settled.kept ?_
  cases isThere : (world.tree.entries.lookup target).isSome with
  | false =>
    refine leaves ?_
    rintro content ⟨executable, present⟩
    rw [present] at isThere
    cases isThere
  | true =>
    refine safe_test rfl settled.kept ?_
    cases isRegular : regular? world.tree target with
    | none =>
      refine leaves ?_
      intro content found
      rw [regular?_eq_some_iff.mpr found] at isRegular
      cases isRegular
    | some content =>
      have found := regular?_eq_some_iff.mp isRegular
      refine safe_readFile found settled.kept ?_ (fun reason => settled)
      cases isManaged : isDashboardManagedHelper content name with
      | false =>
        refine leaves ?_
        intro other hasOther
        rw [regular?_eq_some_iff.mpr hasOther] at isRegular
        rw [Option.some.inj isRegular]
        exact isManaged
      | true =>
        change host.Safe wasStaged start _
          (callOrDie (.unlink target) _ >>= fun _ => pure true) world
        unfold Safe
        rw [run_callOrDie]
        refine Procedure.CrashSafe.performAtOnce ?_ settled.kept ?_
        · intro outcome later shown
          cases outcome <;> simp [helperEffect] at shown
        · intro outcome later answer ended _
          cases outcome with
          | shows length => cases ended
          | fails reason =>
            cases ended
            exact .finish settled.kept settled
          | succeeds =>
            obtain ⟨tree, unlinked, sameWorld⟩ :=
              Option.map_eq_some_iff.mp ended
            cases sameWorld
            have removed :=
              removable.unlink fits settled found isManaged unlinked
            exact .finish removed.settled.kept removed

theorem removable_flatPath (isManaged : name ∈ managedNames) :
    Removable host (host.flatPath name) name where
  isPlace := .flat isManaged
  notManaged := by
    intro other _ same
    exact host.flatPath_ne_in_installRoot name other same.symm

theorem removable_retired :
    Removable host (host.helperPath retiredName) retiredName where
  isPlace := .retired
  notManaged := by
    intro other isManaged same
    rw [host.helperPath_inj.mp same] at isManaged
    exact retiredName_not_mem isManaged

/-- What clearing the old places leaves. -/
structure FlatsRemoved (host : HelperHost) (wasStaged : Text → Bytes → Prop)
    (start : HelperTree) (names : List Text) (before after : HelperWorld) :
    Prop where
  settled : host.Settled wasStaged start after.tree
  gone : ∀ name ∈ names, NotManaged after.tree (host.flatPath name) name
  same :
    ∀ path,
      (∀ name ∈ names, path ≠ host.flatPath name) →
        after.tree.entries.lookup path = before.tree.entries.lookup path

/-- The rule for `_remove_legacy_managed_flat_helpers`. -/
theorem Fits.safe_removeLegacy (fits : host.Fits wasStaged start)
    (managed : ∀ name ∈ names, name ∈ managedNames)
    (settled : host.Settled wasStaged start world.tree) :
    host.Safe wasStaged start
      (fun _ after => FlatsRemoved host wasStaged start names world after)
      (host.removeLegacyManagedFlatHelpers names) world := by
  induction names generalizing world with
  | nil =>
    refine safe_pure settled ⟨settled, fun name isName => ?_, ?_⟩
    · cases isName
    · intro path _
      rfl
  | cons name rest ih =>
    obtain ⟨isManaged, managedRest⟩ := List.forall_mem_cons.mp managed
    refine safe_bind
      ((removable_flatPath isManaged).safe_removeManaged fits settled) ?_
    intro isRemoved middle here
    refine safe_bind (ih managedRest here.settled) ?_
    intro removed after later
    refine safe_pure later.settled ⟨later.settled, ?_, ?_⟩
    · intro other isName
      by_cases isLater : other ∈ rest
      · exact later.gone other isLater
      · obtain rfl := (List.mem_cons.mp isName).resolve_right isLater
        have kept := later.same (host.flatPath other) fun name isRest same =>
          isLater (host.flatPath_inj same ▸ isRest)
        intro content found
        refine here.gone content ?_
        unfold HasContent at found ⊢
        rw [kept] at found
        exact found
    · intro path others
      obtain ⟨notHere, notLater⟩ := List.forall_mem_cons.mp others
      exact (later.same path notLater).trans (here.same path notHere)

end HelperHost

end DeveloperDashboard.Helpers
