import DeveloperDashboard.Helpers.HelperStaging

namespace DeveloperDashboard.Helpers

open Library Perl Files

/-!
# The steps of staging

What each change leaves at every path, and one rule for each kind of call.
-/

def SameBut (path : HelperPath) (tree after : HelperTree) : Prop :=
  ∀ other,
    other ≠ path → after.entries.lookup other = tree.entries.lookup other

def HasContent (tree : HelperTree) (path : HelperPath) (content : Bytes) :
    Prop :=
  ∃ executable,
    tree.entries.lookup path = some (.file (.regular content executable))

variable {tree after : HelperTree} {path source target : HelperPath}
  {content : Bytes}

theorem regular?_eq_some_iff :
    regular? tree path = some content ↔ HasContent tree path content := by
  unfold regular? HasContent FileTree.content?
  cases found : tree.entries.lookup path with
  | none => simp
  | some node =>
    cases node with
    | folder => simp
    | file file => cases file <;> simp

theorem SameBut.refl (path : HelperPath) (tree : HelperTree) :
    SameBut path tree tree := by
  intro _ _
  rfl

theorem SameBut.trans {middle : HelperTree}
    (first : SameBut path tree middle) (second : SameBut path middle after) :
    SameBut path tree after := by
  intro other different
  exact (second other different).trans (first other different)

theorem sameBut_of_writeFile {file : HelperFile}
    (written : tree.writeFile path file = some after) :
    SameBut path tree after ∧
      after.entries.lookup path = some (.file file) := by
  constructor
  · intro other different
    rw [FileTree.lookup_writeFile written, if_neg different]
  · rw [FileTree.lookup_writeFile written, if_pos rfl]

theorem sameBut_of_writeRegular
    (written : writeRegular tree path content = some after) :
    SameBut path tree after ∧ HasContent after path content := by
  unfold writeRegular at written
  split at written
  · obtain ⟨same, found⟩ := sameBut_of_writeFile written
    exact ⟨same, _, found⟩
  · obtain ⟨same, found⟩ := sameBut_of_writeFile written
    exact ⟨same, _, found⟩
  · cases written

theorem sameBut_of_setExecutable
    (changed : setExecutable tree path = some after)
    (before : HasContent tree path content) :
    SameBut path tree after ∧
      after.entries.lookup path = some (.file (.regular content true)) := by
  unfold setExecutable at changed
  rw [regular?_eq_some_iff.mpr before] at changed
  exact sameBut_of_writeFile changed

theorem sameBut_of_unlinkFile
    (unlinked : unlinkFile tree path = some after) :
    SameBut path tree after ∧ after.entries.lookup path = none := by
  unfold unlinkFile at unlinked
  split at unlinked
  · constructor
    · intro other different
      rw [FileTree.lookup_removeFile unlinked, if_neg different]
    · rw [FileTree.lookup_removeFile unlinked, if_pos rfl]
  · cases unlinked

theorem lookup_moveFile (moved : moveFile tree source target = some after)
    (different : source ≠ target) :
    (∀ other, other ≠ source → other ≠ target →
        after.entries.lookup other = tree.entries.lookup other) ∧
      after.entries.lookup source = none ∧
        after.entries.lookup target = tree.entries.lookup source := by
  unfold moveFile at moved
  obtain ⟨file, found, rest⟩ := Option.bind_eq_some_iff.mp moved
  obtain ⟨between, written, removed⟩ := Option.bind_eq_some_iff.mp rest
  have isFile :
      tree.entries.lookup source = some (.file file) := by
    unfold FileTree.content? at found
    split at found
    · next other isOther => rw [isOther, Option.some.inj found]
    · cases found
  refine ⟨fun other notSource notTarget => ?_, ?_, ?_⟩
  · rw [FileTree.lookup_removeFile removed, if_neg notSource,
      FileTree.lookup_writeFile written, if_neg notTarget]
  · rw [FileTree.lookup_removeFile removed, if_pos rfl]
  · rw [FileTree.lookup_removeFile removed, if_neg different.symm,
      FileTree.lookup_writeFile written, if_pos rfl, isFile]

inductive OnSource : FileCall → Prop where
  | doesExist : OnSource (.doesExist .source)
  | unlink : OnSource (.unlink .source)
  | openFile : OnSource (.openFile .source)
  | printTo (content : Bytes) : OnSource (.printTo .source content)
  | closeFile (content : Bytes) : OnSource (.closeFile .source content)

variable {outcome : Outcome}

/-- Such a call changes the prepared file at most. -/
theorem OnSource.sameBut {call : FileCall} (onSource : OnSource call)
    {world later : HelperWorld} {answer : Option Answer}
    (effect :
      pairEffect source target world call outcome = some (later, answer)) :
    SameBut source world.tree later.tree := by
  cases onSource with
  | doesExist =>
    cases outcome <;> simp only [pairEffect, reduceCtorEq] at effect
    cases effect
    exact .refl _ _
  | unlink =>
    cases outcome with
    | shows length => cases effect
    | succeeds =>
      obtain ⟨tree, unlinked, same⟩ := Option.map_eq_some_iff.mp effect
      cases same
      exact (sameBut_of_unlinkFile unlinked).1
    | fails reason =>
      cases effect
      exact .refl _ _
  | openFile =>
    cases outcome with
    | shows length => cases effect
    | succeeds =>
      obtain ⟨tree, written, same⟩ := Option.map_eq_some_iff.mp effect
      cases same
      exact (sameBut_of_writeRegular written).1
    | fails reason =>
      cases effect
      exact .refl _ _
  | printTo content =>
    cases outcome with
    | shows length =>
      obtain ⟨tree, written, same⟩ := Option.map_eq_some_iff.mp effect
      cases same
      exact (sameBut_of_writeRegular written).1
    | succeeds =>
      cases effect
      exact .refl _ _
    | fails reason =>
      cases effect
      exact .refl _ _
  | closeFile content =>
    cases outcome with
    | shows length =>
      obtain ⟨tree, written, same⟩ := Option.map_eq_some_iff.mp effect
      cases same
      exact (sameBut_of_writeRegular written).1
    | succeeds =>
      obtain ⟨tree, written, same⟩ := Option.map_eq_some_iff.mp effect
      cases same
      exact (sameBut_of_writeRegular written).1
    | fails reason =>
      cases effect
      exact .refl _ _

theorem hasContent_of_closeFile {world later : HelperWorld} {bytes : Bytes}
    (effect :
      pairEffect source target world (.closeFile .source content) outcome =
        some (later, some (.ok bytes))) :
    HasContent later.tree source content := by
  cases outcome with
  | shows length =>
    obtain ⟨tree, _, same⟩ := Option.map_eq_some_iff.mp effect
    cases same
  | succeeds =>
    obtain ⟨tree, written, same⟩ := Option.map_eq_some_iff.mp effect
    cases same
    exact (sameBut_of_writeRegular written).2
  | fails reason => cases effect

def testResult (tree : HelperTree) : HelperCall → Option Bool
  | .isFolder path => some (tree.isFolder path)
  | .isThere path => some (tree.entries.lookup path).isSome
  | .isRegular path => some (regular? tree path).isSome
  | .isEmpty path => some (decide (regular? tree path = some []))
  | _ => none

variable {call : HelperCall}

section Rules

variable {allowed : HelperWorld → HelperCall → Outcome → Prop}
  {always : HelperWorld → Prop} {Result : Type}
  {post : Except Text Result → HelperWorld → Prop} {world : HelperWorld}

theorem eq_of_testResult {found : Bool}
    (isTest : testResult world.tree call = some found)
    {later : HelperWorld} {answer : Option Answer}
    (effect : helperEffect world call outcome = some (later, answer)) :
    later = world ∧ answer = some (testAnswer found) := by
  cases call <;> simp only [testResult, reduceCtorEq, Option.some.injEq]
    at isTest <;> cases outcome <;>
    simp only [helperEffect, reduceCtorEq, Option.some.injEq,
      Prod.mk.injEq] at effect <;>
    exact ⟨effect.1.symm, by rw [← effect.2, isTest]⟩

theorem safe_test {found : Bool} {rest : Bool → Staging Result}
    (isTest : testResult world.tree call = some found) (holds : always world)
    (next :
      Procedure.CrashSafe helperEffect allowed always post (rest found).run
        world) :
    Procedure.CrashSafe helperEffect allowed always post
      (test call >>= rest).run world := by
  refine Procedure.CrashSafe.performAtOnce ?_ holds ?_
  · intro outcome later shown
    cases (eq_of_testResult isTest shown).2
  · intro outcome later answer ended _
    obtain ⟨rfl, same⟩ := eq_of_testResult isTest ended
    obtain rfl := Option.some.inj same
    cases found <;> exact next

def afterCall (opening : Text) (rest : Bytes → Staging Result) :
    Answer → Procedure HelperCall Answer (Except Text Result)
  | .ok content => (rest content).run
  | .error reason => .finish (.error (opening ++ ": ".toList ++ reason))

theorem run_callOrDie {opening : Text} {rest : Bytes → Staging Result} :
    (callOrDie call opening >>= rest).run =
      .perform call (afterCall opening rest) := by
  refine congrArg (Procedure.perform call) (funext fun answer => ?_)
  cases answer <;> rfl

theorem safe_readFile {rest : Bytes → Staging Result}
    (found : HasContent world.tree path content) (holds : always world)
    (next :
      Procedure.CrashSafe helperEffect allowed always post (rest content).run
        world)
    (dies : ∀ reason, post (.error reason) world) :
    Procedure.CrashSafe helperEffect allowed always post
      (readFile path >>= rest).run world := by
  unfold readFile
  rw [run_callOrDie]
  refine Procedure.CrashSafe.performAtOnce ?_ holds ?_
  · intro outcome later shown
    cases outcome <;>
      simp [helperEffect, regular?_eq_some_iff.mpr found] at shown
  · intro outcome later answer ended _
    cases outcome with
    | shows length => cases ended
    | succeeds =>
      simp only [helperEffect, regular?_eq_some_iff.mpr found,
        Option.map_some, Option.some.injEq, Prod.mk.injEq] at ended
      obtain ⟨rfl, rfl⟩ := ended
      exact next
    | fails reason =>
      cases ended
      exact .finish holds (dies _)

end Rules

end DeveloperDashboard.Helpers
