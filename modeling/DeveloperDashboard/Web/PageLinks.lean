import DeveloperDashboard.Library.Joined
import DeveloperDashboard.Web.Dispatch

namespace DeveloperDashboard.Web

open Library Perl Page

/-!
# Links of pages

A page is linked to by the path of its id, each segment percent-coded, with
`/edit` behind it for the views that edit.
-/

/-- `_normalized_saved_page_id`. -/
def normalizedSavedPageId (id : Text) : Text :=
  if id ≠ [] ∧ id.all isIdChar then id else normalizedPageId id

/-- `split m{/+}`, of a text that starts with no slash. -/
def pathSegments (id : Text) : List Text :=
  (id.splitOn '/').filter fun segment => decide (segment ≠ [])

/-- The characters that `uri_escape` leaves as they are. -/
structure UriSafeSet extends PercentCoding.SafeSet where
  question : isSafe '?' = false
  hash : isSafe '#' = false
  ampersand : isSafe '&' = false

variable (safe : UriSafeSet)

/-- `uri_escape`, which dies at a wide character. -/
def uriEscape (text : Text) : Option Text :=
  PercentCoding.escape safe.toSafeSet text

/-- `_saved_page_href`. -/
def savedPageHref (id : Text) : Option Text :=
  let normalized := normalizedSavedPageId id
  if normalized = [] then some []
  else
    ((pathSegments normalized).mapM (uriEscape safe)).map
      fun segments => "/app/".toList ++ ['/'].intercalate segments

inductive LinkKind where
  | render
  | edit
  | formAction
  | source
deriving DecidableEq

/-- What stands behind the path of the page. -/
def LinkKind.ending : LinkKind → Text
  | render => []
  | edit | formAction | source => "/edit".toList

def LinkKind.isPost : LinkKind → Bool
  | formAction => true
  | render | edit | source => false

def LinkKind.handler (id : Text) : LinkKind → Route
  | render => .legacyApp id
  | edit | source => .pageEdit id
  | formAction => .pageEditPost id

/-- The links of `_page_route_urls` and of `_decorate_skill_page_routes`. -/
def pageLink (id : Text) (kind : LinkKind) : Option Text :=
  (savedPageHref safe id).map fun href => href ++ kind.ending

def linkPath (link : Text) : Text :=
  PercentCoding.decode <|
    link.takeWhile fun char => decide (char ≠ '?' ∧ char ≠ '#')

def followLink (id : Text) (kind : LinkKind) : Option Route :=
  (pageLink safe id kind).map fun link =>
    dispatchRequest (linkPath link) kind.isPost

/-- All links of an id that is accepted lead to the handlers of its page. -/
def LinksLeadBack (id : Text) : Prop :=
  isPageId id = true →
    ∀ kind, followLink safe id kind = some (LinkKind.handler id kind)

/-- The links of two ids lead to no page in the same way. -/
def LinksStayApart (one other : Text) : Prop :=
  isPageId one = true → isPageId other = true → one ≠ other →
    ∀ kind otherKind route,
      followLink safe one kind = some route →
        followLink safe other otherKind ≠ some route

structure LinksHold (one other : Text) : Prop where
  leadBack : LinksLeadBack safe one
  leadBackToo : LinksLeadBack safe other
  stayApart : LinksStayApart safe one other

/-- An id whose path is not taken for that of another page. -/
structure IsRoutable (id : Text) : Prop where
  normal : validatedPageId id = some id
  narrow : PercentCoding.isNarrow id = true
  oneLine : '\n' ∉ id
  noSource : ¬"/source".toList <:+ id
  noEdit : ¬"/edit".toList <:+ id
  /-- The check of the id decodes the path once more. -/
  decoded : isPageId (uriUnescape id) = true
  decodedEdit : isPageId (uriUnescape id ++ "/edit".toList) = true

/-- Separators of two kinds separate one after the other. -/
theorem splitOnP_or (one other : Char → Bool) (text : Text) :
    text.splitOnP (fun char => one char || other char) =
      (text.splitOnP other).flatMap (List.splitOnP one) := by
  induction text with
  | nil => simp
  | cons char rest ih =>
    rw [List.splitOnP_cons_eq_if_splitOnPPrepend,
      List.splitOnP_cons_eq_if_splitOnPPrepend,
      List.splitOnPPrepend_eq_modifyHead,
      List.splitOnPPrepend_eq_modifyHead, ih]
    cases second : other char with
    | true => simp
    | false =>
    obtain ⟨head, tail, split⟩ :=
      List.exists_cons_of_ne_nil (List.splitOnP_ne_nil other rest)
    have inner :
        List.splitOnP one (char :: head) =
          if one char then [] :: List.splitOnP one head
          else (List.splitOnP one head).modifyHead (char :: ·) := by
      rw [List.splitOnP_cons_eq_if_splitOnPPrepend,
        List.splitOnPPrepend_eq_modifyHead]
      rfl
    obtain ⟨first, others, splitHead⟩ :=
      List.exists_cons_of_ne_nil (List.splitOnP_ne_nil one head)
    cases here : one char with
    | true => simp [split, inner, here]
    | false => simp [split, inner, here, splitHead]

variable {id : Text}

theorem normalizedPageId_of_plain
    (first : ∀ char ∈ id.head?, isSpace char = false ∧ char ≠ '/')
    (last : ∀ char ∈ id.getLast?, isSpace char = false) :
    normalizedPageId id = id := by
  have start : trimStart id = id := by
    cases id with
    | nil => rfl
    | cons char rest =>
      exact List.dropWhile_cons_of_neg (by simp [(first char rfl).1])
  have ends : trimEnd id = id := by
    unfold trimEnd
    rw [List.rdropWhile_eq_self_iff]
    intro nonempty
    have plain := last _ (List.getLast?_eq_some_getLast nonempty)
    simp [plain]
  have noSlash : id.dropWhile (· = '/') = id := by
    cases id with
    | nil => rfl
    | cons char rest =>
      exact List.dropWhile_cons_of_neg (by simp [(first char rfl).2])
  unfold normalizedPageId trim
  simp [start, ends, noSlash]

structure IsPageIdOf (id pageId : Text) : Prop where
  normalized : normalizedSavedPageId id = pageId
  nonempty : pageId ≠ []
  segments : [] ∉ pageId.splitOn '/'

theorem splitOn_of_isIdChar {text : Text} (flat : text.all isIdChar = true) :
    text.splitOn '/' = [text] := by
  refine List.splitOn_eq_singleton ?_
  intro member
  exact (isIdChar_bounds (List.all_eq_true.mp flat _ member)).2 rfl

theorem isPageIdOf_of_isFlatId (flat : isFlatId id = true) :
    IsPageIdOf id id := by
  unfold isFlatId at flat
  rw [Bool.and_eq_true] at flat
  obtain ⟨starts, all⟩ := flat
  have nonempty : id ≠ [] := by
    rintro rfl
    cases starts
  refine ⟨?_, nonempty, ?_⟩
  · unfold normalizedSavedPageId
    rw [if_pos ⟨nonempty, all⟩]
  · rw [splitOn_of_isIdChar all, List.mem_singleton]
    exact Ne.symm nonempty

/-- A flat id below `nav` is normal. -/
theorem isPageIdOf_of_isFlatNavId
    (flat : isFlatNavId id = true) : IsPageIdOf id id := by
  obtain ⟨name, rfl, -, nameChars⟩ := exists_of_isFlatNavId flat
  have noSlash : '/' ∉ name ++ ".tt".toList := by
    rw [List.mem_append, not_or]
    refine ⟨?_, by decide⟩
    intro member
    exact (isIdChar_bounds (List.all_eq_true.mp nameChars _ member)).2 rfl
  refine ⟨?_, List.cons_ne_nil _ _, ?_⟩
  · unfold normalizedSavedPageId
    rw [if_neg]
    · refine normalizedPageId_of_plain ?_ ?_
      · intro char isFirst
        obtain rfl := Option.some.inj isFirst
        decide
      · intro char isLast
        have last :
            ('n' :: 'a' :: 'v' :: '/' :: (name ++ ".tt".toList)).getLast? =
              some 't' := by
          have split :
              'n' :: 'a' :: 'v' :: '/' :: (name ++ ".tt".toList) =
                ('n' :: 'a' :: 'v' :: '/' :: (name ++ ['.', 't'])) ++
                  ['t'] := by
            simp
          rw [split, List.getLast?_append]
          rfl
        obtain rfl := Option.some.inj (last.symm.trans isLast)
        decide
    · rintro ⟨-, allId⟩
      exact absurd (List.all_eq_true.mp allId '/' (by simp)) (by decide)
  · have split :
        ('n' :: 'a' :: 'v' :: '/' :: (name ++ ".tt".toList)).splitOn '/' =
          ['n', 'a', 'v'] :: (name ++ ".tt".toList).splitOn '/' :=
      List.splitOn_append_cons_self_of_not_mem
        (show '/' ∉ ['n', 'a', 'v'] by decide) _
    rw [split, List.splitOn_eq_singleton noSlash]
    simp

variable {pageId : Text}

/-- An id that is accepted is normal once it is normalized. -/
theorem isPageIdOf_of_validated
    (accepts : validatedPageId id = some pageId) :
    IsPageIdOf id pageId := by
  unfold validatedPageId at accepts
  split at accepts
  · next flat =>
      obtain rfl := Option.some.inj accepts
      rw [Bool.or_eq_true] at flat
      rcases flat with isNav | isFlat
      · exact isPageIdOf_of_isFlatNavId isNav
      · exact isPageIdOf_of_isFlatId isFlat
  · simp only at accepts
    split at accepts
    · cases accepts
    · next nonempty =>
    split at accepts
    · cases accepts
    · split at accepts
      · cases accepts
      · next plain =>
      obtain rfl := Option.some.inj accepts
      refine ⟨?_, nonempty, ?_⟩
      · unfold normalizedSavedPageId
        split
        · next idChars =>
            refine (normalizedPageId_of_plain ?_ ?_).symm
            · intro char isFirst
              exact isIdChar_bounds <|
                List.all_eq_true.mp idChars.2 _
                  (List.mem_of_mem_head? isFirst)
            · intro char isLast
              exact (isIdChar_bounds <|
                List.all_eq_true.mp idChars.2 _
                  (List.mem_of_mem_getLast? isLast)).1
        · rfl
      · intro emptySegment
        apply plain
        rw [List.any_eq_true]
        refine ⟨[], ?_, by simp⟩
        have both := splitOnP_or (fun char => decide (char = '\\'))
          (fun char => decide (char = '/')) (normalizedPageId id)
        rw [both, List.mem_flatMap]
        exact ⟨[], emptySegment, by simp⟩

variable {segments : List Text}

theorem mapM_uriEscape_cons_iff {segment : Text} {escaped : List Text} :
    (segment :: segments).mapM (uriEscape safe) = some escaped ↔
      ∃ first rest,
        uriEscape safe segment = some first ∧
        segments.mapM (uriEscape safe) = some rest ∧
        escaped = first :: rest := by
  rw [List.mapM_cons]
  cases uriEscape safe segment with
  | none => simp
  | some first =>
  cases segments.mapM (uriEscape safe) with
  | none => simp
  | some rest => simp [eq_comm]

theorem decode_joined {escaped : List Text}
    (escapes : segments.mapM (uriEscape safe) = some escaped) (rest : Text) :
    PercentCoding.decode (['/'].intercalate escaped ++ rest) =
      ['/'].intercalate segments ++ PercentCoding.decode rest := by
  induction segments generalizing escaped with
  | nil =>
    rw [List.mapM_nil] at escapes
    obtain rfl := Option.some.inj escapes
    rfl
  | cons segment segments ih =>
    obtain ⟨first, others, escapesFirst, escapesOthers, rfl⟩ :=
      (mapM_uriEscape_cons_iff safe).mp escapes
    cases segments with
    | nil =>
      rw [List.mapM_nil] at escapesOthers
      obtain rfl := Option.some.inj escapesOthers
      rw [List.intercalate_singleton, List.intercalate_singleton]
      exact PercentCoding.decode_escape_append _ escapesFirst rest
    | cons next segments =>
      have later := ih escapesOthers
      obtain ⟨second, tail, -, -, rfl⟩ :=
        (mapM_uriEscape_cons_iff safe).mp escapesOthers
      rw [Joined.intercalate_cons_cons, Joined.intercalate_cons_cons,
        List.append_assoc, List.append_assoc,
        PercentCoding.decode_escape_append _ escapesFirst,
        List.cons_append, PercentCoding.decode_cons_of_ne (by decide),
        later, List.cons_append]

/-- No query and no fragment begins in joined segments. -/
theorem linkPath_plain {escaped : List Text}
    (escapes : segments.mapM (uriEscape safe) = some escaped) :
    ∀ char ∈ ['/'].intercalate escaped, char ≠ '?' ∧ char ≠ '#' := by
  induction segments generalizing escaped with
  | nil =>
    rw [List.mapM_nil] at escapes
    obtain rfl := Option.some.inj escapes
    intro char isIn
    cases isIn
  | cons segment segments ih =>
    obtain ⟨first, others, escapesFirst, escapesOthers, rfl⟩ :=
      (mapM_uriEscape_cons_iff safe).mp escapes
    have plainFirst : ∀ char ∈ first, char ≠ '?' ∧ char ≠ '#' := by
      intro char isIn
      refine ⟨?_, ?_⟩
      · rintro rfl
        exact PercentCoding.not_mem_of_escape _ escapesFirst safe.question
          (by decide) (by decide) isIn
      · rintro rfl
        exact PercentCoding.not_mem_of_escape _ escapesFirst safe.hash
          (by decide) (by decide) isIn
    intro char isIn
    rcases Joined.mem_intercalate_iff.mp isIn with
      ⟨part, isPart, inPart⟩ | ⟨rfl, -⟩
    · rcases List.mem_cons.mp isPart with rfl | isPart
      · exact plainFirst char inPart
      · exact ih escapesOthers char <|
          Joined.mem_intercalate_iff.mpr (Or.inl ⟨part, isPart, inPart⟩)
    · decide

theorem exists_mapM_uriEscape_iff :
    (∃ escaped, segments.mapM (uriEscape safe) = some escaped) ↔
      ∀ segment ∈ segments, PercentCoding.isNarrow segment = true := by
  induction segments with
  | nil => simp
  | cons segment segments ih =>
    rw [List.forall_mem_cons, ← ih,
      ← PercentCoding.exists_escape_iff safe.toSafeSet]
    constructor
    · rintro ⟨escaped, escapes⟩
      obtain ⟨first, rest, escapesFirst, escapesRest, -⟩ :=
        (mapM_uriEscape_cons_iff safe).mp escapes
      exact ⟨⟨first, escapesFirst⟩, rest, escapesRest⟩
    · rintro ⟨⟨first, escapesFirst⟩, rest, escapesRest⟩
      exact ⟨first :: rest, (mapM_uriEscape_cons_iff safe).mpr
        ⟨first, rest, escapesFirst, escapesRest, rfl⟩⟩

theorem narrow_splitOn_iff :
    (∀ segment ∈ pageId.splitOn '/', PercentCoding.isNarrow segment = true) ↔
      PercentCoding.isNarrow pageId = true := by
  unfold PercentCoding.isNarrow
  simp only [List.all_eq_true]
  have joined (char : Char) :
      char ∈ pageId ↔
        (∃ segment ∈ pageId.splitOn '/', char ∈ segment) ∨
          char = '/' ∧ 2 ≤ (pageId.splitOn '/').length := by
    rw [← Joined.mem_intercalate_iff, List.intercalate_splitOn]
  constructor
  · intro narrow char isIn
    rcases (joined char).mp isIn with
      ⟨segment, isSegment, inSegment⟩ | ⟨rfl, -⟩
    · exact narrow segment isSegment char inSegment
    · decide
  · intro narrow segment isSegment char inSegment
    exact narrow char ((joined char).mpr
      (Or.inl ⟨segment, isSegment, inSegment⟩))

theorem pathSegments_eq (isId : IsPageIdOf id pageId) :
    pathSegments pageId = pageId.splitOn '/' := by
  unfold pathSegments
  rw [List.filter_eq_self]
  intro segment isSegment
  rw [decide_eq_true_eq]
  rintro rfl
  exact isId.segments isSegment

/-- Whether no query and no fragment begins in a text. -/
def isPathText (text : Text) : Bool :=
  text.all fun char => decide (char ≠ '?' ∧ char ≠ '#')

theorem plain_of_isPathText {text : Text} (isPath : isPathText text = true)
    (char : Char) (isIn : char ∈ text) : char ≠ '?' ∧ char ≠ '#' :=
  of_decide_eq_true (List.all_eq_true.mp isPath char isIn)

theorem app_plain :
    ∀ char ∈ "/app/".toList, char ≠ '?' ∧ char ≠ '#' :=
  plain_of_isPathText rfl

theorem ending_plain (kind : LinkKind) :
    ∀ char ∈ kind.ending, char ≠ '?' ∧ char ≠ '#' := by
  cases kind with
  | render => exact plain_of_isPathText rfl
  | edit => exact plain_of_isPathText rfl
  | formAction => exact plain_of_isPathText rfl
  | source => exact plain_of_isPathText rfl

theorem decode_ending (kind : LinkKind) :
    PercentCoding.decode kind.ending = kind.ending := by
  cases kind <;> rfl

theorem followLink_eq (isId : IsPageIdOf id pageId)
    (narrow : PercentCoding.isNarrow pageId = true) (kind : LinkKind) :
    followLink safe id kind =
      some (dispatchRequest ("/app/".toList ++ (pageId ++ kind.ending))
        kind.isPost) := by
  obtain ⟨escaped, escapes⟩ :=
    (exists_mapM_uriEscape_iff safe).mpr (narrow_splitOn_iff.mpr narrow)
  have plain :
      ∀ char ∈ "/app/".toList ++ ['/'].intercalate escaped ++ kind.ending,
        decide (char ≠ '?' ∧ char ≠ '#') = true := by
    intro char isIn
    rw [decide_eq_true_eq]
    rcases List.mem_append.mp isIn with isIn | inEnding
    · rcases List.mem_append.mp isIn with inApp | inPath
      · exact app_plain char inApp
      · exact linkPath_plain safe escapes char inPath
    · exact ending_plain kind char inEnding
  have decoded :
      linkPath
          ("/app/".toList ++ ['/'].intercalate escaped ++ kind.ending) =
        "/app/".toList ++ (pageId ++ kind.ending) := by
    unfold linkPath
    have app (rest : Text) :
        PercentCoding.decode ("/app/".toList ++ rest) =
          "/app/".toList ++ PercentCoding.decode rest := rfl
    rw [List.takeWhile_eq_self_iff.mpr plain, List.append_assoc, app,
      decode_joined safe escapes, List.intercalate_splitOn, decode_ending]
  unfold followLink pageLink savedPageHref
  rw [isId.normalized]
  simp only [if_neg isId.nonempty, pathSegments_eq isId, escapes,
    Option.map_some, decoded]

theorem followLink_eq_none (isId : IsPageIdOf id pageId)
    (wide : PercentCoding.isNarrow pageId ≠ true) (kind : LinkKind) :
    followLink safe id kind = none := by
  have noSegments :
      (pageId.splitOn '/').mapM (uriEscape safe) = none := by
    by_contra written
    obtain ⟨escaped, escapes⟩ := Option.ne_none_iff_exists'.mp written
    exact wide <| narrow_splitOn_iff.mp <|
      (exists_mapM_uriEscape_iff safe).mp ⟨escaped, escapes⟩
  unfold followLink pageLink savedPageHref
  rw [isId.normalized]
  simp only [if_neg isId.nonempty, pathSegments_eq isId, noSegments,
    Option.map_none]

end DeveloperDashboard.Web
