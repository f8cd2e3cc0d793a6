import DeveloperDashboard.Web.AjaxLinks

namespace DeveloperDashboard.Web

open Library Perl Skills Skills.PathRegistry

/-!
# Routes of saved Ajax files

A saved file is run from its URL just when the router, which looks for the
longest prefix that names a skill, comes to the folder that the file was stored
in.
-/

variable {Content : Type}

structure HasHandler
    (tree : FileTree Text Content) (layer : Path) (file : List Text) :
    Prop where
  nonempty : file ≠ []
  /-- A name that is false to Perl is taken for none. -/
  notZero : file ≠ [['0']]
  valid : validatedPathSegments (joinSegments file) = file
  isFile : tree.isFile (layer ++ ajaxFolder ++ file) = true

variable {skill segments : List Text} {path : Path}

namespace AjaxApp

variable {app : AjaxApp Content}

def lookupRoots (app : AjaxApp Content) (skill : List Text) : List Path :=
  (app.paths.dispatcherSkillLayers (joinSegments skill)).reverse

theorem isTrue_of_mem_lookupRoots {layer : Path}
    (isRoot : layer ∈ app.lookupRoots skill) :
    isTrue (joinSegments skill) = true := by
  unfold lookupRoots dispatcherSkillLayers at isRoot
  rw [List.mem_reverse] at isRoot
  by_contra absent
  rw [if_pos (by simpa using absent)] at isRoot
  cases isRoot

theorem find?_map_eq_some_iff
    {tree : FileTree Text Content} {roots : List Path} {file : List Text} :
    (roots.map fun root => root ++ ajaxFolder ++ file).find? tree.isFile =
        some path ↔
      ∃ deeper layer others,
        roots = deeper ++ layer :: others ∧
          tree.isFile (layer ++ ajaxFolder ++ file) = true ∧
          path = layer ++ ajaxFolder ++ file ∧
          ∀ other ∈ deeper,
            tree.isFile (other ++ ajaxFolder ++ file) = false := by
  rw [List.find?_map, Option.map_eq_some_iff]
  simp only [List.find?_eq_some_iff_append, Function.comp_apply,
    Bool.not_eq_true']
  constructor
  · rintro ⟨layer, ⟨isFile, deeper, others, same, none⟩, rfl⟩
    exact ⟨deeper, layer, others, same, isFile, rfl, none⟩
  · rintro ⟨deeper, layer, others, same, isFile, rfl, none⟩
    exact ⟨layer, ⟨isFile, deeper, others, same, none⟩, rfl⟩

theorem skillAjaxFilePath_eq_some_iff
    {file : List Text} (are : AreSegments file) :
    app.paths.skillAjaxFilePath (joinSegments skill) (joinSegments file) =
        some path ↔
      ∃ deeper layer others,
        app.lookupRoots skill = deeper ++ layer :: others ∧
          HasHandler app.tree layer file ∧
          path = layer ++ ajaxFolder ++ file ∧
          ∀ other ∈ deeper,
            app.tree.isFile (other ++ ajaxFolder ++ file) = false := by
  unfold skillAjaxFilePath
  constructor
  · intro returned
    split at returned
    · next given =>
        rw [Bool.and_eq_true, are.isTrue_joinSegments] at given
        split at returned
        · cases returned
        · next first rest valid =>
            have same := are.eq_of_validated (valid ▸ List.cons_ne_nil _ _)
            obtain rfl := valid.symm.trans same
            obtain ⟨deeper, layer, others, split, isFile, isPath, none⟩ :=
              find?_map_eq_some_iff.mp returned
            exact ⟨deeper, layer, others, split,
              ⟨are.nonempty, given.2, same, isFile⟩, isPath, none⟩
    · cases returned
  · rintro ⟨deeper, layer, others, split, has, isPath, none⟩
    have isRoot : layer ∈ app.lookupRoots skill := by
      rw [split]
      exact List.mem_append_right _ List.mem_cons_self
    rw [isTrue_of_mem_lookupRoots isRoot,
      are.isTrue_joinSegments.mpr has.notZero]
    obtain ⟨first, rest, rfl⟩ := List.exists_cons_of_ne_nil has.nonempty
    simp only [has.valid, Bool.and_self, if_true]
    exact find?_map_eq_some_iff.mpr
      ⟨deeper, layer, others, split, has.isFile, isPath, none⟩

structure IsSkillHandler
    (app : AjaxApp Content) (segments : List Text) (path : Path)
    (skill file : List Text) (layer : Path) : Prop where
  segments : segments = skill ++ file
  longest : app.paths.IsLongest skill file
  handler : HasHandler app.tree layer file
  path : path = layer ++ ajaxFolder ++ file
  effective :
    ∃ deeper others, app.lookupRoots skill = deeper ++ layer :: others ∧
      ∀ other ∈ deeper,
        app.tree.isFile (other ++ ajaxFolder ++ file) = false

theorem skillHandler?_eq_some_iff {skillName ajaxFile : Text}
    (are : AreSegments segments) :
    app.skillHandler? segments = some (skillName, ajaxFile, path) ↔
      ∃ skill file layer,
        app.IsSkillHandler segments path skill file layer ∧
          skillName = joinSegments skill ∧
          ajaxFile = joinSegments file := by
  unfold skillHandler?
  rw [Option.bind_eq_some_iff]
  constructor
  · rintro ⟨spec, resolves, returned⟩
    obtain ⟨skill, file, rfl, longest, rfl⟩ :=
      resolveRouteSegments_eq_some_iff.mp resolves
    split at returned
    · cases returned
    · next nonempty =>
        obtain ⟨found, finds, same⟩ := Option.map_eq_some_iff.mp returned
        cases same
        have areFile : AreSegments file :=
          are.of_subset (List.subset_append_right _ _) nonempty
        obtain ⟨deeper, layer, others, split, has, isPath, none⟩ :=
          (skillAjaxFilePath_eq_some_iff areFile).mp finds
        exact ⟨skill, file, layer,
          ⟨rfl, longest, has, isPath, deeper, others, split, none⟩, rfl,
          rfl⟩
  · rintro ⟨skill, file, layer, is, rfl, rfl⟩
    obtain ⟨deeper, others, split, none⟩ := is.effective
    refine ⟨_, resolveRouteSegments_eq_some_iff.mpr
      ⟨skill, file, is.segments, is.longest, rfl⟩, ?_⟩
    have areFile : AreSegments file :=
      are.of_subset (is.segments ▸ List.subset_append_right _ _)
        is.handler.nonempty
    have finds := (skillAjaxFilePath_eq_some_iff areFile).mpr
      ⟨deeper, layer, others, split, is.handler, is.path, none⟩
    rw [if_neg is.handler.nonempty, finds]
    rfl

theorem skillHandler?_eq_none_iff (are : AreSegments segments) :
    app.skillHandler? segments = none ↔
      ∀ path skill file layer,
        ¬app.IsSkillHandler segments path skill file layer := by
  constructor
  · intro none path skill file layer is
    have finds := (skillHandler?_eq_some_iff are).mpr
      ⟨skill, file, layer, is, rfl, rfl⟩
    rw [none] at finds
    cases finds
  · intro none
    by_contra found
    obtain ⟨⟨skillName, ajaxFile, path⟩, finds⟩ :=
      Option.ne_none_iff_exists'.mp found
    obtain ⟨skill, file, layer, is, -, -⟩ :=
      (skillHandler?_eq_some_iff are).mp finds
    exact none path skill file layer is

theorem exists_of_mem_lookupRoots {layer : Path} (are : AreSegments skill)
    (isRoot : layer ∈ app.lookupRoots skill) :
    ∃ root, layer = nestedSkillPath root skill := by
  obtain ⟨root, isSkills, rootSkill, nested, rfl, rfl⟩ :=
    exists_of_mem_dispatcherSkillLayers are (List.mem_reverse.mp isRoot)
  obtain ⟨runtimeRoot, -, rfl⟩ := List.mem_map.mp isSkills
  exact ⟨runtimeRoot, (nestedSkillPath_cons _ _ _).symm⟩

end AjaxApp

/-- How long segments are when they are joined, and one more. -/
def joinedLength (segments : List Text) : Nat :=
  (segments.map fun segment => segment.length + 1).sum

theorem joinedLength_append (segments others : List Text) :
    joinedLength (segments ++ others) =
      joinedLength segments + joinedLength others := by
  unfold joinedLength
  rw [List.map_append, List.sum_append]

theorem joinedLength_filter_le (segments : List Text) (keeps : Text → Bool) :
    joinedLength (segments.filter keeps) ≤ joinedLength segments := by
  induction segments with
  | nil => exact Nat.le_refl _
  | cons segment segments ih =>
    unfold joinedLength at ih ⊢
    rw [List.filter_cons]
    split
    · simp only [List.map_cons, List.sum_cons]
      omega
    · simp only [List.map_cons, List.sum_cons]
      omega

theorem joinedLength_splitOn (text : Text) :
    joinedLength (text.splitOn '/') = text.length + 1 := by
  induction text with
  | nil => rfl
  | cons char text ih =>
    obtain ⟨head, tail, split⟩ :=
      List.exists_cons_of_ne_nil (List.splitOnP_ne_nil (· == '/') text)
    unfold joinedLength List.splitOn at ih ⊢
    rw [List.splitOnP_cons_eq_if_splitOnPPrepend,
      List.splitOnPPrepend_eq_modifyHead]
    rw [split] at ih ⊢
    simp only [List.map_cons, List.sum_cons] at ih
    split
    · simp only [List.map_cons, List.sum_cons, List.length_nil,
        List.length_cons]
      omega
    · simp only [List.modifyHead_cons, List.map_cons, List.sum_cons,
        List.length_append, List.length_cons, List.length_nil,
        List.reverse_cons, List.reverse_nil, List.nil_append]
      omega

theorem joinedLength_le_nestedNames (segments : List Text) :
    joinedLength segments ≤ joinedLength (nestedNames segments) := by
  induction segments with
  | nil => exact Nat.le_refl _
  | cons segment segments ih =>
    have split :
        nestedNames (segment :: segments) =
          ["skills".toList, segment] ++ nestedNames segments := rfl
    rw [split, joinedLength_append]
    unfold joinedLength at ih ⊢
    simp only [List.map_cons, List.sum_cons, List.map_nil, List.sum_nil]
    omega

theorem ne_of_joinedLength_le
    {root other : Path} {names : List Text} (nonempty : names ≠ [])
    (short : joinedLength names ≤ joinedLength segments) :
    other ++ ajaxFolder ++ names ≠
      nestedSkillPath root segments ++ ajaxFolder := by
  intro same
  obtain ⟨front, rfl⟩ := exists_of_append_eq nonempty same
  have longer := joinedLength_le_nestedNames segments
  have folder : joinedLength ajaxFolder = 16 := rfl
  rw [joinedLength_append, joinedLength_append, folder] at short
  omega

theorem ne_of_suffix
    {root other : Path} {front names : List Text} (nonempty : names ≠ []) :
    other ++ ajaxFolder ++ names ≠
      nestedSkillPath root (front ++ names) ++ ajaxFolder := by
  intro same
  obtain ⟨before, whole⟩ := exists_of_append_eq nonempty same
  have lengths := congrArg joinedLength whole
  have longer := joinedLength_le_nestedNames (front ++ names)
  have folder : joinedLength ajaxFolder = 16 := rfl
  rw [joinedLength_append] at longer
  rw [joinedLength_append, joinedLength_append, folder] at lengths
  omega

/-- The path below `/ajax/` that stops a singleton. -/
def stopPath : Text :=
  "singleton/stop".toList

/-- What is below `/ajax/` is a file, unless it stops a singleton. -/
theorem dispatchRequest_below_ajax (rest : Text) (isPost : Bool) :
    dispatchRequest ("/ajax/".toList ++ rest) isPost =
      if rest = stopPath then .ajaxSingletonStop
      else
        ((lineCapture rest).map fun line =>
          Route.prefixedAjaxFile (uriUnescape line)).getD
            (.customSkillRoute ("/ajax/".toList ++ rest)) := by
  have noApp :
      captureAfter "/app/".toList ("/ajax/".toList ++ rest) = none := rfl
  have fixed :
      fixedRoute ("/ajax/".toList ++ rest) =
        if rest = stopPath then some .ajaxSingletonStop else none := by
    have ajax :
        "/ajax/singleton/stop".toList = "/ajax/".toList ++ stopPath := rfl
    have notAjax : "/ajax/".toList ++ rest ≠ "/ajax".toList := by
      intro same
      have lengths := congrArg List.length same
      rw [List.length_append] at lengths
      have six : "/ajax/".toList.length = 6 := rfl
      have five : "/ajax".toList.length = 5 := rfl
      omega
    unfold fixedRoute
    rw [ajax, if_neg notAjax]
    simp only [List.append_cancel_left_eq]
    rfl
  have captured :
      captureAfter "/ajax/".toList ("/ajax/".toList ++ rest) =
        lineCapture rest := rfl
  unfold dispatchRequest
  rw [noApp, fixed, captured]
  by_cases isStop : rest = stopPath
  · rw [if_pos isStop, if_pos isStop]
    rfl
  · rw [if_neg isStop, if_neg isStop]
    cases lineCapture rest with
    | some line => rfl
    | none =>
      cases isPost with
      | false => rfl
      | true => rfl

theorem dispatchRequest_ajax
    {path : Text} (nonempty : path ≠ []) (oneLine : '\n' ∉ path) :
    dispatchRequest ("/ajax/".toList ++ path) false =
      if path = stopPath then .ajaxSingletonStop
      else .prefixedAjaxFile (uriUnescape path) := by
  rw [dispatchRequest_below_ajax, lineCapture_of_oneLine nonempty oneLine]
  rfl

variable {request : Request}

namespace AjaxApp

variable {app : AjaxApp Content}

/-- A request without a token, and without a body. -/
structure IsPlain (request : Request) : Prop where
  noToken : (parseQuery request.query).value "token" = []
  noBody : request.body = []
  notPost : request.isPost = false

theorem file?_of_plain (plain : IsPlain request) (ajaxPath : Text) :
    (app.prefixedAjaxFileResponse ajaxPath request).file? =
      app.handlerFile? (orEmpty ajaxPath) := by
  obtain ⟨token, isToken, answer⟩ :=
    @isAnswer_prefixedAjaxFileResponse _ app ajaxPath request
  have noToken : token = [] := by
    unfold IsToken requestParams at isToken
    rw [plain.noBody, plain.notPost] at isToken
    rcases isToken with rfl | rfl
    · exact plain.noToken
    · exact plain.noToken
  rw [answer.file?, noToken]
  rfl

theorem file?_of_handler (plain : IsPlain request)
    {ajaxPath skillName ajaxFile : Text} (given : isTrue ajaxPath = true)
    (found :
      app.skillHandler? (pathSegments ajaxPath) =
        some (skillName, ajaxFile, path)) :
    (app.prefixedAjaxFileResponse ajaxPath request).file? = some path := by
  rw [file?_of_plain plain, orEmpty_of_isTrue given]
  unfold handlerFile?
  rw [found]

theorem file?_of_noHandler (plain : IsPlain request) {ajaxPath : Text}
    (given : isTrue ajaxPath = true)
    (none : app.skillHandler? (pathSegments ajaxPath) = none) :
    (app.prefixedAjaxFileResponse ajaxPath request).file? =
      (app.runtimeAnswer ajaxPath []).file? := by
  rw [file?_of_plain plain, orEmpty_of_isTrue given, runtimeAnswer_file?.1]
  unfold handlerFile?
  rw [none]

theorem runtimeAnswer_file?_iff {file : Text} {layers : List Path} :
    (app.runtimeAnswer file layers).file? = some path ↔
      savedAjaxFilePath app.runtimeRoot file = .ok path ∧
        app.tree.isFile path = true := by
  unfold runtimeAnswer
  cases savedAjaxFilePath app.runtimeRoot file with
  | error error => simp [AjaxAnswer.file?]
  | ok found =>
    by_cases isFile : app.tree.isFile found = true
    · simp only [isFile, if_true, AjaxAnswer.file?, Option.some.injEq,
        Except.ok.injEq]
      constructor
      · rintro rfl
        exact ⟨rfl, isFile⟩
      · exact And.left
    · simp only [isFile, AjaxAnswer.file?, Except.ok.injEq]
      simp only [Bool.false_eq_true, if_false, reduceCtorEq, false_iff]
      rintro ⟨rfl, isFileToo⟩
      exact isFile isFileToo

theorem isPlain_urlRequest {safe : UriSafeSet} {parts : AjaxUrlParts}
    (are : parts.AreEscaped safe segments) :
    IsPlain (urlRequest parts.url) where
  noToken := by
    unfold urlRequest
    rw [are.urlQuery_url]
    exact are.token_eq_nil
  noBody := rfl
  notPost := rfl

theorem answer_urlRequest {safe : UriSafeSet} {parts : AjaxUrlParts}
    (are : parts.AreEscaped safe segments)
    (areSegments : AreSegments segments)
    (oneLine : '\n' ∉ joinSegments segments) :
    (app.answer (urlRequest parts.url)).bind AjaxAnswer.file? =
      if joinSegments segments = stopPath then none
      else
        (app.prefixedAjaxFileResponse (uriUnescape (joinSegments segments))
          (urlRequest parts.url)).file? := by
  have routes :
      dispatchRequest (urlRequest parts.url).path
          (urlRequest parts.url).isPost =
        if joinSegments segments = stopPath then .ajaxSingletonStop
        else .prefixedAjaxFile (uriUnescape (joinSegments segments)) := by
    change dispatchRequest (linkPath parts.url) false = _
    rw [are.linkPath_url]
    exact dispatchRequest_ajax areSegments.joinSegments_ne_nil oneLine
  unfold answer
  rw [routes]
  by_cases isStop : joinSegments segments = stopPath
  · rw [if_pos isStop, if_pos isStop]
    rfl
  · rw [if_neg isStop, if_neg isStop]
    rfl

end AjaxApp

end DeveloperDashboard.Web
