import DeveloperDashboard.Web.AjaxResponse

namespace DeveloperDashboard.Web

open Library Perl Skills

/-!
# Links of saved Ajax files

The URL of a saved file is requested as its path, decoded once, and with the
type and the name of a singleton as parameters.
-/

def urlQuery (url : Text) : Text :=
  ((url.takeWhile (· ≠ '#')).dropWhile (· ≠ '?')).drop 1

def urlRequest (url : Text) : Request where
  path := linkPath url
  query := urlQuery url
  body := []
  isPost := false

inductive PageSource where
  | runtime
  | skill (name : List Text) (layer : Path)

variable {Content : Type}

namespace AjaxApp

variable (app : AjaxApp Content)

/-- What a page hands to `Ajax` about itself. -/
def context : PageSource → AjaxContext
  | .runtime => ⟨app.runtimeRoot, []⟩
  | .skill name layer => ⟨layer, name⟩

def IsPage : PageSource → Prop
  | .runtime => True
  | .skill name layer =>
    AreSegments name ∧
      layer ∈ app.paths.dispatcherSkillLayers (joinSegments name)

end AjaxApp

theorem pathSegments_joinSegments
    {segments : List Text} (are : AreSegments segments) :
    pathSegments (joinSegments segments) = segments := by
  unfold pathSegments
  rw [are.splitOn_joinSegments, are.filter_eq (List.Subset.refl _)]

theorem validateSavedAjaxFile_eq_ok_iff {file accepted : Text} :
    validateSavedAjaxFile file = .ok accepted ↔
      accepted = file ∧ hasParentTraversal file = false ∧
        isPlainFileName file = true := by
  unfold validateSavedAjaxFile
  constructor
  · intro validates
    split at validates
    · cases validates
    · split at validates
      · cases validates
      · split at validates
        · cases validates
        · next noParent =>
          split at validates
          · cases validates
          · next plain =>
              refine ⟨(Except.ok.inj validates).symm, ?_, ?_⟩
              · exact Bool.eq_false_iff.mpr noParent
              · simpa using plain
  · rintro ⟨rfl, noParent, plain⟩
    have nonempty : accepted ≠ [] := by
      rintro rfl
      cases plain
    have relative : accepted.head? ≠ some '/' := by
      intro slash
      unfold isPlainFileName at plain
      rw [slash] at plain
      exact absurd (Bool.and_eq_true_iff.mp plain).1 (by decide)
    rw [if_neg nonempty, if_neg relative, noParent, plain]
    rfl

theorem pathSegments_cons {char : Char} {text : Text}
    (notSlash : char ≠ '/') :
    ∃ more rest, pathSegments (char :: text) = (char :: more) :: rest := by
  obtain ⟨head, tail, split⟩ :=
    List.exists_cons_of_ne_nil (List.splitOnP_ne_nil (· == '/') text)
  have split :
      (char :: text).splitOn '/' = (char :: head) :: tail := by
    unfold List.splitOn
    rw [List.splitOnP_cons_eq_if_splitOnPPrepend,
      if_neg (by simpa using notSlash), List.splitOnPPrepend_eq_modifyHead,
      split]
    rfl
  unfold pathSegments
  rw [split, List.filter_cons_of_pos (by simp)]
  exact ⟨head, _, rfl⟩

theorem exists_pathSegments_cons {text : Text}
    (starts : (text.head?.any Char.isAlphanum) = true) :
    ∃ first rest, pathSegments text = first :: rest ∧
      (first.head?.any Char.isAlphanum) = true := by
  cases text with
  | nil => cases starts
  | cons char text =>
    have alphanumeric : char.isAlphanum = true := starts
    have notSlash : char ≠ '/' := by
      rintro rfl
      exact absurd alphanumeric (by decide)
    obtain ⟨more, rest, same⟩ := @pathSegments_cons char text notSlash
    exact ⟨char :: more, rest, same, alphanumeric⟩

theorem areFileSegments_of_validate {file accepted : Text}
    (validates : validateSavedAjaxFile file = .ok accepted) :
    AreFileSegments (pathSegments file) := by
  obtain ⟨-, noParent, plain⟩ := validateSavedAjaxFile_eq_ok_iff.mp validates
  unfold isPlainFileName at plain
  rw [Bool.and_eq_true] at plain
  have isPart {segment : Text} (isSegment : segment ∈ pathSegments file) :
      segment ∈ file.splitOn '/' := (List.mem_filter.mp isSegment).1
  refine ⟨⟨?_, ?_, ?_⟩, ?_, ?_⟩
  · obtain ⟨first, rest, same, -⟩ := exists_pathSegments_cons plain.1
    rw [same]
    exact List.cons_ne_nil _ _
  · intro segment isSegment
    exact Joined.not_mem_of_mem_splitOn (isPart isSegment)
  · intro empty
    exact of_decide_eq_true (List.mem_filter.mp empty).2 rfl
  · intro segment isSegment
    rw [List.all_eq_true]
    intro char isIn
    have joined : ['/'].intercalate (file.splitOn '/') = file :=
      List.intercalate_splitOn _
    have inFile : char ∈ file := by
      rw [← joined, Joined.mem_intercalate_iff]
      exact Or.inl ⟨segment, isPart isSegment, isIn⟩
    have allowed := List.all_eq_true.mp plain.2 char inFile
    rw [Bool.or_eq_true, decide_eq_true_eq] at allowed
    refine allowed.resolve_right ?_
    rintro rfl
    exact Joined.not_mem_of_mem_splitOn (isPart isSegment) isIn
  · intro isParent
    unfold hasParentTraversal at noParent
    exact List.any_eq_false.mp noParent _ (isPart isParent)
      (decide_eq_true rfl)

def withoutDots (segments : List Text) : List Text :=
  segments.filter fun segment => decide (segment ≠ ['.'])

theorem catNames_eq (path : Text) :
    catNames path = withoutDots (pathSegments path) := by
  unfold catNames withoutDots pathSegments
  rw [List.filter_filter]
  congr 1
  funext segment
  rw [Bool.decide_and, Bool.and_comm]

theorem withoutDots_eq_self {segments : List Text}
    (noDot : ['.'] ∉ segments) : withoutDots segments = segments := by
  unfold withoutDots
  rw [List.filter_eq_self]
  intro segment isSegment
  rw [decide_eq_true_eq]
  rintro rfl
  exact noDot isSegment

theorem validateSavedAjaxFile_joinSegments {file accepted : Text}
    (validates : validateSavedAjaxFile file = .ok accepted) :
    validateSavedAjaxFile (joinSegments (pathSegments file)) =
      .ok (joinSegments (pathSegments file)) := by
  have are := areFileSegments_of_validate validates
  obtain ⟨-, -, plain⟩ := validateSavedAjaxFile_eq_ok_iff.mp validates
  unfold isPlainFileName at plain
  rw [Bool.and_eq_true] at plain
  refine validateSavedAjaxFile_eq_ok_iff.mpr ⟨rfl, ?_, ?_⟩
  · unfold hasParentTraversal
    rw [are.splitOn_joinSegments]
    rw [List.any_eq_false]
    intro segment isSegment isParent
    exact are.noParent (of_decide_eq_true isParent ▸ isSegment)
  · unfold isPlainFileName
    rw [Bool.and_eq_true]
    constructor
    · obtain ⟨first, rest, same, starts⟩ := exists_pathSegments_cons plain.1
      rw [same] at are ⊢
      rw [are.head?_joinSegments.1]
      exact starts
    · rw [List.all_eq_true]
      intro char isIn
      rw [Bool.or_eq_true, decide_eq_true_eq]
      rcases Joined.mem_intercalate_iff.mp isIn with
        ⟨segment, isSegment, isIn⟩ | ⟨slash, -⟩
      · exact Or.inl
          (List.all_eq_true.mp (are.fileChars _ isSegment) _ isIn)
      · exact Or.inr slash

section

variable {safe : UriSafeSet}

theorem mapM_uriEscape_append
    {segments others escaped otherEscaped : List Text}
    (escapes : segments.mapM (uriEscape safe) = some escaped)
    (otherEscapes : others.mapM (uriEscape safe) = some otherEscaped) :
    (segments ++ others).mapM (uriEscape safe) =
      some (escaped ++ otherEscaped) := by
  rw [List.mapM_append, escapes, otherEscapes]
  rfl

theorem mapM_uriEscape_ne_nil
    {segments escaped : List Text} (nonempty : segments ≠ [])
    (escapes : segments.mapM (uriEscape safe) = some escaped) :
    escaped ≠ [] := by
  obtain ⟨segment, rest, rfl⟩ := List.exists_cons_of_ne_nil nonempty
  obtain ⟨first, others, -, -, rfl⟩ :=
    (mapM_uriEscape_cons_iff safe).mp escapes
  exact List.cons_ne_nil _ _

theorem not_mem_uriEscape {text escaped : Text}
    (escapes : uriEscape safe text = some escaped) :
    '?' ∉ escaped ∧ '#' ∉ escaped ∧ '&' ∉ escaped :=
  ⟨PercentCoding.not_mem_of_escape _ escapes safe.question (by decide)
      (by decide),
    PercentCoding.not_mem_of_escape _ escapes safe.hash (by decide)
      (by decide),
    PercentCoding.not_mem_of_escape _ escapes safe.ampersand (by decide)
      (by decide)⟩

structure AjaxUrlParts where
  segments : List Text
  type : Text
  singleton : Option Text

def singletonQuery : Option Text → Text
  | none => []
  | some singleton => '&' :: "singleton=".toList ++ singleton

def AjaxUrlParts.query (parts : AjaxUrlParts) : Text :=
  "type=".toList ++ parts.type ++ singletonQuery parts.singleton

def AjaxUrlParts.path (parts : AjaxUrlParts) : Text :=
  "/ajax/".toList ++ joinSegments parts.segments

def AjaxUrlParts.url (parts : AjaxUrlParts) : Text :=
  parts.path ++ '?' :: parts.query

structure AjaxUrlParts.AreEscaped
    (safe : UriSafeSet) (segments : List Text) (parts : AjaxUrlParts) :
    Prop where
  segments : segments.mapM (uriEscape safe) = some parts.segments
  type : ∃ text, uriEscape safe text = some parts.type
  singleton :
    ∀ singleton, parts.singleton = some singleton →
      ∃ text, uriEscape safe text = some singleton

theorem withSingleton_eq_some
    {args : AjaxArgs} {query url : Text} (hasQuery : '?' ∈ query)
    (returned : withSingleton safe args query = some url) :
    ∃ singleton, url = query ++ singletonQuery singleton ∧
      ∀ escaped, singleton = some escaped →
        ∃ text, uriEscape safe text = some escaped := by
  unfold withSingleton at returned
  split at returned
  · obtain rfl := Option.some.inj returned
    exact ⟨none, (List.append_nil _).symm, by simp⟩
  · obtain ⟨singleton, escapes, rfl⟩ := Option.map_eq_some_iff.mp returned
    refine ⟨some singleton, ?_, ?_⟩
    · rw [List.append_assoc]
      rfl
    · rintro _ ⟨⟩
      exact ⟨_, escapes⟩

theorem plainAjaxPath_eq_some {context : AjaxContext} {file path : Text}
    (isSkill : context.skill = [] ∨ AreSegments context.skill)
    (are : AreSegments (pathSegments file))
    (returned : plainAjaxPath safe context file = some path) :
    ∃ segments,
      (context.skill ++ pathSegments file).mapM (uriEscape safe) =
          some segments ∧
        path = "/ajax/".toList ++ joinSegments segments := by
  unfold plainAjaxPath urlPathEscape AjaxContext.skillName at returned
  rcases isSkill with runtime | skill
  · rw [runtime] at returned ⊢
    rw [if_neg (show ¬joinSegments [] ≠ [] from not_not.mpr rfl)] at returned
    obtain ⟨_, escapesFile, rfl⟩ := Option.map_eq_some_iff.mp returned
    obtain ⟨segments, escapes, rfl⟩ :=
      Option.map_eq_some_iff.mp escapesFile
    exact ⟨segments, escapes, rfl⟩
  · rw [if_pos skill.joinSegments_ne_nil, pathSegments_joinSegments skill]
      at returned
    obtain ⟨_, isSkillPath, returned⟩ := Option.bind_eq_some_iff.mp returned
    obtain ⟨_, isFilePath, rfl⟩ := Option.map_eq_some_iff.mp returned
    obtain ⟨skillSegments, escapesSkill, rfl⟩ :=
      Option.map_eq_some_iff.mp isSkillPath
    obtain ⟨fileSegments, escapesFile, rfl⟩ :=
      Option.map_eq_some_iff.mp isFilePath
    refine ⟨_, mapM_uriEscape_append escapesSkill escapesFile, ?_⟩
    rw [joinSegments_append
      (mapM_uriEscape_ne_nil skill.nonempty escapesSkill)
      (mapM_uriEscape_ne_nil are.nonempty escapesFile), List.append_assoc]

theorem savedAjaxUrl_eq_some {ajaxRoutePath : Text → Text → Option Text}
    (noRoutes : ∀ skillName file, ajaxRoutePath skillName file = none)
    {context : AjaxContext} {args : AjaxArgs} {url : Text}
    (isSkill : context.skill = [] ∨ AreSegments context.skill)
    (are : AreSegments (pathSegments args.file))
    (returned : savedAjaxUrl safe ajaxRoutePath context args = some url) :
    ∃ parts : AjaxUrlParts,
      parts.AreEscaped safe (context.skill ++ pathSegments args.file) ∧
        url = parts.url := by
  unfold savedAjaxUrl at returned
  rw [noRoutes, ite_self] at returned
  obtain ⟨path, isPath, returned⟩ := Option.bind_eq_some_iff.mp returned
  obtain ⟨type, escapesType, returned⟩ := Option.bind_eq_some_iff.mp returned
  obtain ⟨segments, escapes, rfl⟩ := plainAjaxPath_eq_some isSkill are isPath
  have hasQuery :
      '?' ∈ "/ajax/".toList ++ joinSegments segments ++ "?type=".toList ++
        type :=
    List.mem_append_left _ (List.mem_append_right _ List.mem_cons_self)
  obtain ⟨singleton, rfl, escapesSingleton⟩ :=
    withSingleton_eq_some hasQuery returned
  refine ⟨⟨segments, type, singleton⟩,
    ⟨escapes, ⟨_, escapesType⟩, escapesSingleton⟩, ?_⟩
  unfold AjaxUrlParts.url AjaxUrlParts.path AjaxUrlParts.query
  simp

namespace AjaxUrlParts

variable {segments : List Text} {parts : AjaxUrlParts}

theorem ajax_plain :
    ∀ char ∈ "/ajax/".toList, char ≠ '?' ∧ char ≠ '#' :=
  plain_of_isPathText rfl

section

variable (are : parts.AreEscaped safe segments)

include are

theorem AreEscaped.path_plain :
    ∀ char ∈ parts.path, char ≠ '?' ∧ char ≠ '#' := by
  intro char isIn
  rcases List.mem_append.mp isIn with before | inSegments
  · exact ajax_plain char before
  · exact linkPath_plain safe are.segments char inSegments

theorem AreEscaped.query_plain :
    '#' ∉ parts.query := by
  obtain ⟨text, escapes⟩ := are.type
  unfold query
  rw [List.mem_append, List.mem_append, not_or, not_or]
  refine ⟨⟨by decide, (not_mem_uriEscape escapes).2.1⟩, ?_⟩
  cases given : parts.singleton with
  | none => exact List.not_mem_nil
  | some singleton =>
    obtain ⟨text, escapes⟩ := are.singleton singleton given
    unfold singletonQuery
    rw [List.mem_append, not_or]
    exact ⟨by decide, (not_mem_uriEscape escapes).2.1⟩

theorem AreEscaped.linkPath_url :
    linkPath parts.url = "/ajax/".toList ++ joinSegments segments := by
  have stops :
      parts.url.takeWhile (fun char => decide (char ≠ '?' ∧ char ≠ '#')) =
        parts.path := by
    unfold url
    rw [List.takeWhile_append_of_pos]
    · rw [List.takeWhile_cons_of_neg (by decide), List.append_nil]
    · intro char isIn
      exact decide_eq_true (are.path_plain char isIn)
  have ajax (rest : Text) :
      PercentCoding.decode ("/ajax/".toList ++ rest) =
        "/ajax/".toList ++ PercentCoding.decode rest := rfl
  have decoded := decode_joined safe are.segments []
  rw [List.append_nil] at decoded
  unfold linkPath
  rw [stops, path, ajax]
  refine congrArg _ ?_
  unfold joinSegments
  rw [decoded]
  exact List.append_nil _

theorem AreEscaped.urlQuery_url :
    urlQuery parts.url = parts.query := by
  have noHash : parts.url.takeWhile (· ≠ '#') = parts.url := by
    rw [List.takeWhile_eq_self_iff]
    intro char isIn
    rw [decide_eq_true_eq]
    rintro rfl
    unfold url at isIn
    rcases List.mem_append.mp isIn with inPath | inQuery
    · exact (are.path_plain _ inPath).2 rfl
    · rcases List.mem_cons.mp inQuery with same | inQuery
      · exact absurd same (by decide)
      · exact are.query_plain inQuery
  unfold urlQuery
  rw [noHash, url, List.dropWhile_append_of_pos]
  · rw [List.dropWhile_cons_of_neg (by decide)]
    rfl
  · intro char isIn
    exact decide_eq_true (are.path_plain char isIn).1

theorem AreEscaped.token_eq_nil :
    (parseQuery parts.query).value "token" = [] := by
  obtain ⟨text, escapes⟩ := are.type
  have noAmpersand := (not_mem_uriEscape escapes).2.2
  have typePlain : '&' ∉ "type=".toList ++ parts.type := by
    rw [List.mem_append, not_or]
    exact ⟨by decide, noAmpersand⟩
  unfold query
  cases given : parts.singleton with
  | none =>
    unfold singletonQuery parseQuery
    rw [List.append_nil, List.splitOn_eq_singleton typePlain]
    rfl
  | some singleton =>
    obtain ⟨text, escapes⟩ := are.singleton singleton given
    have singletonPlain : '&' ∉ "singleton=".toList ++ singleton := by
      rw [List.mem_append, not_or]
      exact ⟨by decide, (not_mem_uriEscape escapes).2.2⟩
    have added :
        singletonQuery (some singleton) =
          '&' :: ("singleton=".toList ++ singleton) := rfl
    unfold parseQuery
    rw [added, List.splitOn_append_cons_self_of_not_mem typePlain,
      List.splitOn_eq_singleton singletonPlain]
    rfl

end

end AjaxUrlParts

end

end DeveloperDashboard.Web
