import DeveloperDashboard.Web.AjaxRouting
import DeveloperDashboard.Web.RoutableIds

namespace DeveloperDashboard.Web

open Library Perl Skills Skills.PathRegistry

/-!
# Files that are reached

A page is given a URL for the file that it stores.  The URL leads back to the
file when the longest prefix of its path that names a skill is the skill of the
page, or has no handler of its own.
-/

variable {Content : Type}

variable {safe : UriSafeSet} {context : AjaxContext} {args : AjaxArgs}
  {code : Content} {saved : SavedAjax Content} {name : List Text}
  {root : Path}

namespace AjaxApp

def withTree (app : AjaxApp Content) (tree : FileTree Text Content) :
    AjaxApp Content :=
  { app with tree := tree }

/-- The URL of a saved file is answered by running that file. -/
structure RunsStored
    (app : AjaxApp Content) (saved : SavedAjax Content) (code : Content) :
    Prop where
  runs :
    ((app.withTree saved.tree).answer (urlRequest saved.url)).bind
      AjaxAnswer.file? = some saved.path
  stored : saved.tree.content? saved.path = some code

/-- The segments of a skill, when its name is decoded once more. -/
def decodedName (name : List Text) : List Text :=
  pathSegments (uriUnescape (joinSegments name))

/-- The URL of a file of the runtime root is not taken for another one. -/
structure LeadsToRuntime (app : AjaxApp Content) (file : List Text) :
    Prop where
  notStop : joinSegments file ≠ stopPath
  notZero : file ≠ [['0']]
  noSkill :
    ∀ skill rest, file = skill ++ rest → app.paths.IsLongest skill rest →
      ∀ layer ∈ app.lookupRoots skill, ¬HasHandler app.tree layer rest

/-- The URL of a file of a layer is not taken for another one. -/
structure LeadsToLayer
    (app : AjaxApp Content) (name : List Text) (layer : Path)
    (file : List Text) : Prop where
  notStop : joinSegments (name ++ file) ≠ stopPath
  notZero : file ≠ [['0']]
  noDot : ['.'] ∉ file
  longest : app.paths.IsLongest (decodedName name) file
  effective :
    ∃ deeper others,
      app.lookupRoots (decodedName name) = deeper ++ layer :: others ∧
        ∀ other ∈ deeper,
          app.tree.isFile (other ++ ajaxFolder ++ file) = false

def LeadsBack (app : AjaxApp Content) (file : Text) : PageSource → Prop
  | .runtime => app.LeadsToRuntime (pathSegments file)
  | .skill name layer => app.LeadsToLayer name layer (pathSegments file)

variable {app : AjaxApp Content}

structure IsStored
    (safe : UriSafeSet) (context : AjaxContext) (args : AjaxArgs)
    (code : Content) (saved : SavedAjax Content) : Prop where
  validates : validateSavedAjaxFile args.file = .ok args.file
  path :
    saved.path =
      context.runtimeRoot ++ ajaxFolder ++
        withoutDots (pathSegments args.file)
  content : saved.tree.content? saved.path = some code
  url :
    ∃ parts : AjaxUrlParts,
      parts.AreEscaped safe (context.skill ++ pathSegments args.file) ∧
        saved.url = parts.url

theorem isStored_of_savedAjaxUrlAndStore
    {ajaxRoutePath : Text → Text → Option Text}
    (noRoutes : ∀ skillName file, ajaxRoutePath skillName file = none)
    {tree : FileTree Text Content}
    (isSkill : context.skill = [] ∨ AreSegments context.skill)
    (stores :
      savedAjaxUrlAndStore safe ajaxRoutePath tree context args code =
        some saved) :
    IsStored safe context args code saved := by
  unfold savedAjaxUrlAndStore at stores
  split at stores
  · cases stores
  · next path isPath =>
      split at stores
      · cases stores
      · next made makes =>
          obtain ⟨written, writes, stores⟩ :=
            Option.bind_eq_some_iff.mp stores
          obtain ⟨url, isUrl, rfl⟩ := Option.map_eq_some_iff.mp stores
          unfold savedAjaxFilePath at isPath
          cases validates : validateSavedAjaxFile args.file with
          | error error =>
            rw [validates] at isPath
            cases isPath
          | ok accepted =>
            rw [validates] at isPath
            obtain ⟨rfl, -, -⟩ :=
              validateSavedAjaxFile_eq_ok_iff.mp validates
            obtain rfl := Except.ok.inj isPath
            have are := areFileSegments_of_validate validates
            refine ⟨validates, ?_, ?_, ?_⟩
            · rw [← catNames_eq]
            · unfold FileTree.content?
              dsimp only
              rw [FileTree.lookup_writeFile writes, if_pos rfl]
            · exact savedAjaxUrl_eq_some noRoutes isSkill are.toAreSegments
                isUrl

theorem uriUnescape_joinSegments
    {file : List Text} (are : AreFileSegments file) :
    uriUnescape (joinSegments file) = joinSegments file := by
  refine PercentCoding.decode_of_no_percent ?_
  intro isIn
  rcases Joined.mem_intercalate_iff.mp isIn with
    ⟨segment, isSegment, isIn⟩ | ⟨slash, -⟩
  · exact (isFileChar_bounds
      (List.all_eq_true.mp (are.fileChars _ isSegment) _ isIn)).2.2.2.2 rfl
  · exact absurd slash (by decide)

theorem pathSegments_append (path file : Text) :
    pathSegments (path ++ '/' :: file) =
      pathSegments path ++ pathSegments file := by
  unfold pathSegments
  rw [List.splitOn_append_cons_self, List.filter_append]

theorem pathSegments_uriUnescape
    {file : List Text} (isName : AreSegments name)
    (isFile : AreFileSegments file) :
    uriUnescape (joinSegments (name ++ file)) =
        uriUnescape (joinSegments name) ++ '/' :: joinSegments file ∧
      pathSegments (uriUnescape (joinSegments (name ++ file))) =
        decodedName name ++ file := by
  have decoded :
      uriUnescape (joinSegments (name ++ file)) =
        uriUnescape (joinSegments name) ++ '/' :: joinSegments file := by
    have plain := uriUnescape_joinSegments isFile
    unfold uriUnescape at plain ⊢
    rw [joinSegments_append isName.nonempty isFile.nonempty,
      PercentCoding.decode_append_cons (by decide),
      PercentCoding.decode_cons_of_ne (by decide), plain]
  refine ⟨decoded, ?_⟩
  rw [decoded, pathSegments_append,
    pathSegments_joinSegments isFile.toAreSegments]
  rfl

theorem areSegments_pathSegments_append
    {text : Text} {file : List Text} (isFile : AreSegments file) :
    AreSegments (pathSegments text ++ file) where
  nonempty := List.append_ne_nil_of_right_ne_nil _ isFile.nonempty
  noSlash := by
    intro segment isSegment
    rcases List.mem_append.mp isSegment with inText | inFile
    · exact Joined.not_mem_of_mem_splitOn (List.mem_filter.mp inText).1
    · exact isFile.noSlash segment inFile
  present := by
    rw [List.mem_append, not_or]
    refine ⟨?_, isFile.present⟩
    intro empty
    exact of_decide_eq_true (List.mem_filter.mp empty).2 rfl

theorem joinedLength_decodedName_le (are : AreSegments name) :
    joinedLength (decodedName name) ≤ joinedLength name := by
  have split := joinedLength_splitOn (joinSegments name)
  rw [are.splitOn_joinSegments] at split
  calc
    joinedLength (decodedName name)
      ≤ joinedLength ((uriUnescape (joinSegments name)).splitOn '/') :=
        joinedLength_filter_le _ _
    _ = (uriUnescape (joinSegments name)).length + 1 :=
        joinedLength_splitOn _
    _ ≤ (joinSegments name).length + 1 :=
        Nat.succ_le_succ (PercentCoding.length_decode_le _)
    _ = joinedLength name := split.symm

theorem newline_not_mem_joinSegments
    {file : List Text} (are : AreFileSegments file) :
    '\n' ∉ joinSegments file := by
  intro isIn
  rcases Joined.mem_intercalate_iff.mp isIn with
    ⟨segment, isSegment, isIn⟩ | ⟨slash, -⟩
  · have bounds := isFileChar_bounds
      (List.all_eq_true.mp (are.fileChars _ isSegment) _ isIn)
    exact absurd bounds.1 (by decide)
  · exact absurd slash (by decide)

theorem newline_not_mem_name {layer : Path}
    (isLayer : layer ∈ app.paths.dispatcherSkillLayers (joinSegments name)) :
    '\n' ∉ joinSegments name := by
  have valid : validatedPathSegments (joinSegments name) ≠ [] := by
    intro invalid
    unfold dispatcherSkillLayers at isLayer
    split at isLayer
    · cases isLayer
    · rw [invalid] at isLayer
      cases isLayer
  have clean := (validated_of_ne_nil valid).2.2.1
  intro isIn
  unfold isClean at clean
  rw [Bool.and_eq_true, Bool.not_eq_true', List.any_eq_false] at clean
  exact clean.1 _ isIn (by decide)

theorem noDot_of_valid {segments : List Text} (are : AreSegments segments)
    (valid : validatedPathSegments (joinSegments segments) ≠ []) :
    ['.'] ∉ segments := by
  obtain ⟨-, -, -, -, -, accepted⟩ := validated_of_ne_nil valid
  rw [are.splitSlashes_joinSegments] at accepted
  intro isDot
  exact accepted _ isDot (Or.inr (Or.inl rfl))

theorem valid_of_mem_lookupRoots {skill : List Text} {layer : Path}
    (isRoot : layer ∈ app.lookupRoots skill) :
    validatedPathSegments (joinSegments skill) ≠ [] := by
  intro invalid
  unfold lookupRoots dispatcherSkillLayers at isRoot
  rw [List.mem_reverse, invalid] at isRoot
  split at isRoot
  · cases isRoot
  · cases isRoot

namespace IsSkillHandler

variable {segments skill file : List Text} {path layer : Path}

theorem mem_lookupRoots
    (handler : app.IsSkillHandler segments path skill file layer) :
    layer ∈ app.lookupRoots skill := by
  obtain ⟨deeper, others, split, -⟩ := handler.effective
  rw [split]
  exact List.mem_append_right _ List.mem_cons_self

theorem areSegments_skill (are : AreSegments segments)
    (handler : app.IsSkillHandler segments path skill file layer) :
    AreSegments skill :=
  are.of_subset (handler.segments ▸ List.subset_append_left _ _)
    handler.longest.nonempty

theorem areSegments_file (are : AreSegments segments)
    (handler : app.IsSkillHandler segments path skill file layer) :
    AreSegments file :=
  are.of_subset (handler.segments ▸ List.subset_append_right _ _)
    handler.handler.nonempty

theorem noDot (are : AreSegments segments)
    (handler : app.IsSkillHandler segments path skill file layer) :
    ['.'] ∉ skill ∧ ['.'] ∉ file := by
  refine ⟨?_, ?_⟩
  · exact noDot_of_valid (handler.areSegments_skill are)
      (valid_of_mem_lookupRoots handler.mem_lookupRoots)
  · refine noDot_of_valid (handler.areSegments_file are) ?_
    rw [handler.handler.valid]
    exact handler.handler.nonempty

theorem ne_runtime (are : AreSegments segments)
    (handler : app.IsSkillHandler segments path skill file layer) :
    path ≠ app.runtimeRoot ++ ajaxFolder ++ withoutDots segments := by
  have isSkill := handler.areSegments_skill are
  obtain ⟨root, rfl⟩ :=
    exists_of_mem_lookupRoots isSkill handler.mem_lookupRoots
  have noDot := handler.noDot are
  rw [handler.path, handler.segments, withoutDots_eq_self
    (by rw [List.mem_append, not_or]; exact noDot), ← List.append_assoc]
  intro same
  exact @ne_of_suffix root app.runtimeRoot [] skill isSkill.nonempty
    (List.append_cancel_right same).symm

end IsSkillHandler

theorem exists_handler {skill file : List Text} {layer : Path}
    (longest : app.paths.IsLongest skill file)
    (isRoot : layer ∈ app.lookupRoots skill)
    (has : HasHandler app.tree layer file) :
    ∃ path first, app.IsSkillHandler (skill ++ file) path skill file first := by
  have finds :
      (((app.lookupRoots skill).map fun root =>
        root ++ ajaxFolder ++ file).find? app.tree.isFile).isSome := by
    rw [List.find?_isSome]
    exact ⟨_, List.mem_map_of_mem isRoot, has.isFile⟩
  obtain ⟨path, finds⟩ := Option.isSome_iff_exists.mp finds
  obtain ⟨deeper, first, others, split, isFile, isPath, none⟩ :=
    find?_map_eq_some_iff.mp finds
  exact ⟨path, first, rfl, longest,
    ⟨has.nonempty, has.notZero, has.valid, isFile⟩, isPath, deeper, others,
    split, none⟩

theorem file?_of_zero
    {request : Request} (plain : IsPlain request) {ajaxPath : Text}
    (absent : isTrue ajaxPath = false) :
    (app.prefixedAjaxFileResponse ajaxPath request).file? = none := by
  have nothing : orEmpty ajaxPath = [] := by
    unfold orEmpty
    rw [absent]
    rfl
  rw [file?_of_plain plain, nothing]
  rfl

theorem runsStored_iff (stored : IsStored safe context args code saved) :
    app.RunsStored saved code ↔
      ((app.withTree saved.tree).answer (urlRequest saved.url)).bind
        AjaxAnswer.file? = some saved.path := by
  constructor
  · exact RunsStored.runs
  · intro runs
    exact ⟨runs, stored.content⟩

theorem IsStored.isFile (stored : IsStored safe context args code saved) :
    saved.tree.isFile saved.path = true := by
  unfold FileTree.isFile
  rw [stored.content]
  rfl

theorem of_savedAjaxFilePath {file : Text} {path : Path}
    (isPath : savedAjaxFilePath root file = .ok path) :
    isPlainFileName file = true ∧
      path = root ++ ajaxFolder ++ catNames file := by
  unfold savedAjaxFilePath at isPath
  cases validates : validateSavedAjaxFile file with
  | error error =>
    rw [validates] at isPath
    cases isPath
  | ok accepted =>
    rw [validates] at isPath
    obtain ⟨rfl, -, plain⟩ := validateSavedAjaxFile_eq_ok_iff.mp validates
    exact ⟨plain, (Except.ok.inj isPath).symm⟩

theorem runtimeAnswer_joinSegments {tree : FileTree Text Content}
    (validates : validateSavedAjaxFile args.file = .ok args.file)
    (isFile :
      tree.isFile (app.runtimeRoot ++ ajaxFolder ++
        withoutDots (pathSegments args.file)) = true) :
    ((app.withTree tree).runtimeAnswer
        (joinSegments (pathSegments args.file)) []).file? =
      some (app.runtimeRoot ++ ajaxFolder ++
        withoutDots (pathSegments args.file)) := by
  have are := areFileSegments_of_validate validates
  refine runtimeAnswer_file?_iff.mpr ⟨?_, isFile⟩
  unfold savedAjaxFilePath
  rw [validateSavedAjaxFile_joinSegments validates]
  change Except.ok (app.runtimeRoot ++ ajaxFolder ++
    catNames (joinSegments (pathSegments args.file))) = _
  rw [catNames_eq, pathSegments_joinSegments are.toAreSegments]

/-- When the URL of a file of the runtime root leads back to it. -/
theorem runs_runtime_iff
    (stored :
      IsStored safe (app.context .runtime) args code saved) :
    app.RunsStored saved code ↔
      (app.withTree saved.tree).LeadsToRuntime (pathSegments args.file) := by
  have are := areFileSegments_of_validate stored.validates
  have areSegments := are.toAreSegments
  have isFile := stored.isFile
  obtain ⟨parts, escaped, isUrl⟩ := stored.url
  have isPath : saved.path =
      app.runtimeRoot ++ ajaxFolder ++
        withoutDots (pathSegments args.file) := stored.path
  have given := areSegments.isTrue_joinSegments
  rw [isPath] at isFile
  rw [runsStored_iff stored, isUrl, isPath,
    answer_urlRequest escaped areSegments (newline_not_mem_joinSegments are)]
  have decoded := uriUnescape_joinSegments are
  have segments := pathSegments_joinSegments areSegments
  have plain := isPlain_urlRequest escaped
  change (if joinSegments (pathSegments args.file) = stopPath then none
    else (prefixedAjaxFileResponse _
      (uriUnescape (joinSegments (pathSegments args.file))) _).file?) =
        some _ ↔ _
  rw [decoded]
  constructor
  · intro runs
    split at runs
    · cases runs
    · next notStop =>
        have notZero : pathSegments args.file ≠ [['0']] := by
          intro zero
          rw [zero, file?_of_zero plain rfl] at runs
          cases runs
        refine ⟨notStop, notZero, ?_⟩
        intro skill rest split longest layer isRoot has
        obtain ⟨path, first, handler⟩ := exists_handler longest isRoot has
        rw [← split] at handler
        have found := (skillHandler?_eq_some_iff areSegments).mpr
          ⟨skill, rest, first, handler, rfl, rfl⟩
        rw [file?_of_handler plain (given.mpr notZero) (segments ▸ found)]
          at runs
        exact handler.ne_runtime areSegments (Option.some.inj runs)
  · intro leads
    have noHandler :
        (app.withTree saved.tree).skillHandler?
          (pathSegments args.file) = none := by
      refine (skillHandler?_eq_none_iff areSegments).mpr ?_
      intro path skill rest layer handler
      exact leads.noSkill skill rest handler.segments handler.longest layer
        handler.mem_lookupRoots handler.handler
    rw [← segments] at noHandler
    rw [if_neg leads.notStop,
      file?_of_noHandler plain (given.mpr leads.notZero) noHandler]
    exact runtimeAnswer_joinSegments stored.validates isFile

theorem ne_layer {other : Path} {names file : List Text}
    (isName : AreSegments name) (nonempty : names ≠ [])
    (short : joinedLength names ≤ joinedLength (decodedName name)) :
    other ++ ajaxFolder ++ (names ++ file) ≠
      nestedSkillPath root name ++ ajaxFolder ++ file := by
  intro same
  rw [← List.append_assoc] at same
  exact ne_of_joinedLength_le nonempty
    (short.trans (joinedLength_decodedName_le isName))
    (List.append_cancel_right same)

theorem IsSkillHandler.eq_layer
    {skill file rest : List Text} {path layer other : Path}
    (isName : AreSegments name) (isFile : AreSegments file)
    (isLayer : layer = nestedSkillPath root name)
    (handler :
      app.IsSkillHandler (decodedName name ++ file) path skill rest other)
    (same : path = layer ++ ajaxFolder ++ withoutDots file) :
    skill = decodedName name ∧ rest = file ∧ other = layer := by
  have are : AreSegments (decodedName name ++ file) :=
    areSegments_pathSegments_append isFile
  have noDot := handler.noDot are
  have isPath := handler.path
  have noDotFile : ['.'] ∉ file := by
    have whole : ['.'] ∉ decodedName name ++ file := by
      rw [handler.segments, List.mem_append, not_or]
      exact noDot
    intro isDot
    exact whole (List.mem_append_right _ isDot)
  rw [withoutDots_eq_self noDotFile, isPath] at same
  have unnamed (nothing : skill = decodedName name ∧ rest = file) :
      skill = decodedName name ∧ rest = file ∧ other = layer := by
    rw [nothing.2] at same
    exact ⟨nothing.1, nothing.2,
      List.append_cancel_right (List.append_cancel_right same)⟩
  rcases List.append_eq_append_iff.mp handler.segments with
    ⟨names, isSkill, split⟩ | ⟨names, split, isRest⟩
  · -- The skill has the whole name, and perhaps names of the file.
    by_cases nothing : names = []
    · rw [nothing] at isSkill split
      exact unnamed ⟨isSkill.trans (List.append_nil _), split.symm⟩
    · obtain ⟨otherRoot, isOther⟩ :=
        exists_of_mem_lookupRoots (handler.areSegments_skill are)
          handler.mem_lookupRoots
      rw [split, ← List.append_assoc] at same
      have folders := List.append_cancel_right same
      rw [isOther, isSkill] at folders
      exact absurd folders.symm (ne_of_suffix nothing)
  · -- The file of the handler begins with names of the skill of the page.
    by_cases nothing : names = []
    · rw [nothing] at isRest split
      exact unnamed ⟨(split.trans (List.append_nil _)).symm, isRest⟩
    · rw [isRest, isLayer] at same
      refine absurd same (ne_layer isName nothing ?_)
      rw [split, joinedLength_append]
      omega

theorem withoutDots_decodedName_ne_nil {behind : Text}
    (isPlain :
      isPlainFileName (uriUnescape (joinSegments name) ++ '/' :: behind) =
        true) :
    withoutDots (decodedName name) ≠ [] := by
  unfold isPlainFileName at isPlain
  rw [Bool.and_eq_true] at isPlain
  have starts :
      ((uriUnescape (joinSegments name)).head?.any Char.isAlphanum) =
        true := by
    cases text : uriUnescape (joinSegments name) with
    | nil =>
      rw [text] at isPlain
      exact absurd (show Char.isAlphanum '/' = true from isPlain.1)
        (by decide)
    | cons char rest =>
      rw [text] at isPlain
      exact isPlain.1
  obtain ⟨first, rest, split, firstStarts⟩ := exists_pathSegments_cons starts
  have notDot : first ≠ ['.'] := by
    rintro rfl
    exact absurd (show Char.isAlphanum '.' = true from firstStarts)
      (by decide)
  unfold decodedName withoutDots
  rw [split, List.filter_cons_of_pos (by simpa using notDot)]
  exact List.cons_ne_nil _ _

theorem ne_layer_of_runtime {file : List Text} {layer other : Path}
    (isName : AreSegments name) (isLayer : layer = nestedSkillPath root name)
    (nonempty : withoutDots (decodedName name) ≠ []) :
    other ++ ajaxFolder ++ withoutDots (decodedName name ++ file) ≠
      layer ++ ajaxFolder ++ withoutDots file := by
  unfold withoutDots at nonempty ⊢
  rw [List.filter_append, isLayer]
  exact ne_layer isName nonempty (joinedLength_filter_le _ _)

theorem runs_layer_iff {layer : Path}
    (isPage : app.IsPage (.skill name layer))
    (stored :
      IsStored safe (app.context (.skill name layer)) args code saved) :
    app.RunsStored saved code ↔
      (app.withTree saved.tree).LeadsToLayer name layer
        (pathSegments args.file) := by
  obtain ⟨isName, isLayer⟩ := isPage
  have are := areFileSegments_of_validate stored.validates
  have areSegments := isName.append are.toAreSegments
  have isFile := stored.isFile
  obtain ⟨parts, escaped, isUrl⟩ := stored.url
  have escaped :
      parts.AreEscaped safe (name ++ pathSegments args.file) := escaped
  have isPath : saved.path =
      layer ++ ajaxFolder ++ withoutDots (pathSegments args.file) :=
    stored.path
  obtain ⟨root, named⟩ :=
    exists_of_mem_lookupRoots isName (List.mem_reverse.mpr isLayer)
  have oneLine : '\n' ∉ joinSegments (name ++ pathSegments args.file) := by
    rw [joinSegments_append isName.nonempty are.nonempty, List.mem_append,
      List.mem_cons, not_or, not_or]
    exact ⟨newline_not_mem_name isLayer, by decide,
      newline_not_mem_joinSegments are⟩
  obtain ⟨decoded, segments⟩ := pathSegments_uriUnescape isName are
  have areDecoded :
      AreSegments (decodedName name ++ pathSegments args.file) :=
    areSegments_pathSegments_append are.toAreSegments
  have plain := isPlain_urlRequest escaped
  have given :
      isTrue (uriUnescape
        (joinSegments (name ++ pathSegments args.file))) = true := by
    rw [decoded]
    refine decide_eq_true ⟨?_, ?_⟩
    · exact List.append_ne_nil_of_right_ne_nil _ (List.cons_ne_nil _ _)
    · intro zero
      have slash : '/' ∈ ['0'] :=
        zero ▸ List.mem_append_right _ List.mem_cons_self
      exact absurd slash (by decide)
  rw [isPath] at isFile
  rw [runsStored_iff stored, isUrl, isPath]
  change ((app.withTree saved.tree).answer
    (urlRequest parts.url)).bind AjaxAnswer.file? = _ ↔ _
  rw [answer_urlRequest escaped areSegments oneLine]
  constructor
  · intro runs
    split at runs
    · cases runs
    · next notStop =>
        cases found : (app.withTree saved.tree).skillHandler?
            (decodedName name ++ pathSegments args.file) with
        | none =>
          rw [file?_of_noHandler plain given (segments ▸ found)] at runs
          obtain ⟨isSaved, -⟩ := runtimeAnswer_file?_iff.mp runs
          obtain ⟨isPlain, isSaved⟩ := of_savedAjaxFilePath isSaved
          rw [catNames_eq, segments] at isSaved
          exact absurd isSaved.symm (ne_layer_of_runtime isName named
            (withoutDots_decodedName_ne_nil (decoded ▸ isPlain)))
        | some handler =>
          obtain ⟨skillName, ajaxFile, path⟩ := handler
          obtain ⟨skill, rest, other, handler, -, -⟩ :=
            (skillHandler?_eq_some_iff areDecoded).mp found
          rw [file?_of_handler plain given (segments ▸ found)] at runs
          obtain ⟨rfl, rfl, rfl⟩ := handler.eq_layer isName
            are.toAreSegments named (Option.some.inj runs)
          exact ⟨notStop, handler.handler.notZero,
            (handler.noDot areDecoded).2, handler.longest,
            handler.effective⟩
  · intro leads
    have noDot := withoutDots_eq_self leads.noDot
    rw [noDot] at isFile ⊢
    have valid :
        validatedPathSegments (joinSegments (pathSegments args.file)) =
          pathSegments args.file := by
      rw [are.validatedPathSegments_eq, if_neg leads.noDot]
    have found := (skillHandler?_eq_some_iff areDecoded).mpr
      ⟨decodedName name, pathSegments args.file, layer,
        ⟨rfl, leads.longest, ⟨are.nonempty, leads.notZero, valid, isFile⟩,
          rfl, leads.effective⟩, rfl, rfl⟩
    rw [if_neg leads.notStop]
    exact file?_of_handler plain given (segments ▸ found)

theorem runsStored_iff_leadsBack
    {safe : UriSafeSet} {ajaxRoutePath : Text → Text → Option Text}
    (noRoutes : ∀ skillName file, ajaxRoutePath skillName file = none)
    {source : PageSource} (isPage : app.IsPage source)
    {args : AjaxArgs} {code : Content} {saved : SavedAjax Content}
    (stores :
      savedAjaxUrlAndStore safe ajaxRoutePath app.tree (app.context source)
        args code = some saved) :
    app.RunsStored saved code ↔
      (app.withTree saved.tree).LeadsBack args.file source := by
  cases source with
  | runtime =>
    exact runs_runtime_iff
      (isStored_of_savedAjaxUrlAndStore noRoutes (Or.inl rfl) stores)
  | skill name layer =>
    exact runs_layer_iff isPage
      (isStored_of_savedAjaxUrlAndStore noRoutes (Or.inr isPage.1) stores)

def nestedTree : FileTree Text Unit where
  entries :=
    ([[], ["root"], ["root", "skills"], ["root", "skills", "alpha"],
        ["root", "skills", "alpha", "skills"],
        ["root", "skills", "alpha", "skills", "beta"]] :
      List (List String)).map fun names =>
        (names.map String.toList, .folder)
  closed := by decide +kernel

def nestedApp : AjaxApp Unit where
  tree := nestedTree
  runtimeRoot := ["root".toList]
  upperRoots := []
  tokensAllowed := false
  decodePayload _ := none
  customRoute _ := none

def outerPage : PageSource :=
  .skill ["alpha".toList] (["root", "skills", "alpha"].map String.toList)

def outerSaved (file : String) : Option (SavedAjax Unit) :=
  savedAjaxUrlAndStore unreserved (fun _ _ => none) nestedTree
    (nestedApp.context outerPage) ⟨file.toList, [], []⟩ ()

theorem isPage_outerPage : nestedApp.IsPage outerPage := by
  refine ⟨⟨by decide, by decide, by decide⟩, ?_⟩
  decide +kernel

/-- A file with a name of its own is found as the condition says. -/
theorem runsStored_iff_leadsBack_outer :
    ∃ saved, outerSaved "run" = some saved ∧
      (nestedApp.RunsStored saved () ↔
        (nestedApp.withTree saved.tree).LeadsBack "run".toList
          outerPage) := by
  obtain ⟨saved, stores⟩ :=
    Option.isSome_iff_exists.mp
      (show (outerSaved "run").isSome = true by decide +kernel)
  exact ⟨saved, stores,
    runsStored_iff_leadsBack (fun _ _ => rfl) isPage_outerPage stores⟩

/-- The URL of `beta/run` is looked for in the nested skill, and not found. -/
theorem file_below_nested_skill_is_lost :
    nestedApp.IsPage outerPage ∧
      ∃ saved, outerSaved "beta/run" = some saved ∧
        ¬nestedApp.RunsStored saved () := by
  obtain ⟨saved, stores⟩ :=
    Option.isSome_iff_exists.mp
      (show (outerSaved "beta/run").isSome = true by decide +kernel)
  have answers :
      (outerSaved "beta/run").map (fun saved =>
        (nestedApp.withTree saved.tree).answer (urlRequest saved.url)) =
          some (some .handlerNotFound) := by
    decide +kernel
  rw [stores] at answers
  have lost :
      (nestedApp.withTree saved.tree).answer (urlRequest saved.url) =
        some .handlerNotFound := Option.some.inj answers
  refine ⟨isPage_outerPage, saved, stores, ?_⟩
  intro holds
  have runs := holds.runs
  rw [lost] at runs
  cases runs

end AjaxApp

end DeveloperDashboard.Web
