import DeveloperDashboard.Web.PageLinks

namespace DeveloperDashboard.Web

open Library Perl Page

/-!
# Routable ids

A link leads back to its page just when no pattern of the router takes the path
of the page for something else.
-/

theorem eq_append_of_captureBetween {start stop path between : Text}
    (captures : captureBetween start stop path = some between) :
    captureAfter start path = some (between ++ stop) := by
  unfold captureBetween at captures
  obtain ⟨line, isLine, captures⟩ := Option.bind_eq_some_iff.mp captures
  split at captures
  · next ends =>
      obtain ⟨⟨before, rfl⟩, -⟩ := And.imp_left
        List.isSuffixOf_iff_suffix.mp ends
      rw [List.length_append, Nat.add_sub_cancel, List.take_left' rfl]
        at captures
      obtain rfl := Option.some.inj captures
      exact isLine
  · cases captures

theorem captureBetween_of_eq_append
    {start stop path between : Text} (nonempty : between ≠ [])
    (captures : captureAfter start path = some (between ++ stop)) :
    captureBetween start stop path = some between := by
  unfold captureBetween
  rw [captures, Option.bind_some, if_pos, List.length_append,
    Nat.add_sub_cancel, List.take_left' rfl]
  refine ⟨List.isSuffixOf_iff_suffix.mpr (List.suffix_append _ _), ?_⟩
  rw [List.length_append]
  have := List.length_pos_iff.mpr nonempty
  omega

def appPath (rest : Text) : Text :=
  "/app/".toList ++ rest

theorem captureAfter_appPath (rest : Text) :
    captureAfter "/app/".toList (appPath rest) = lineCapture rest := rfl

def Route.isPage : Route → Bool
  | legacyApp _ | pageEdit _ | pageEditPost _ => true
  | _ => false

/-- Only the patterns of `/app/` match a path below it. -/
theorem dispatchRequest_appPath (rest : Text) (isPost : Bool) :
    dispatchRequest (appPath rest) isPost =
      if (lineCapture rest).any fun id => !isPageId (uriUnescape id) then
        .invalidPageId
      else
        (appRoute isPost (appPath rest)).getD
          (.customSkillRoute (appPath rest)) := by
  have noFixed : fixedRoute (appPath rest) = none := rfl
  have noAjax : captureAfter "/ajax/".toList (appPath rest) = none := rfl
  have noAsset : assetRoute (appPath rest) = none := rfl
  have noStatic : captureStatic (appPath rest) = none := rfl
  have noSkill : captureSkill (appPath rest) = none := rfl
  have noAction : appPath rest ≠ "/action".toList := by
    intro same
    injection same with _ same
    injection same with _ same
    injection same with different
    exact absurd different (by decide)
  unfold dispatchRequest
  rw [captureAfter_appPath, noFixed, noAjax, noAsset, noStatic, noSkill,
    if_neg (not_and_of_not_left _ noAction)]
  simp only [Option.map_none, Option.none_or, Option.or_none]

/-- A page is found where a line behind `/app/` is an id. -/
theorem dispatchRequest_isPage_iff
    {rest : Text} {isPost : Bool} {route : Route}
    (isPage : route.isPage = true) :
    dispatchRequest (appPath rest) isPost = route ↔
      ∃ line, lineCapture rest = some line ∧
        isPageId (uriUnescape line) = true ∧
        appRoute isPost (appPath rest) = some route := by
  rw [dispatchRequest_appPath]
  cases captures : lineCapture rest with
  | none =>
    have noBetween (stop : Text) :
        captureBetween "/app/".toList stop (appPath rest) = none := by
      unfold captureBetween
      rw [captureAfter_appPath, captures]
      rfl
    have elsewhere :
        (appRoute isPost (appPath rest)).getD
          (.customSkillRoute (appPath rest)) ≠ route := by
      unfold appRoute
      rw [noBetween, noBetween, captureAfter_appPath, captures]
      rintro rfl
      cases action :
          if isPost then captureAction (appPath rest) else none with
      | none => simp [action, Route.isPage] at isPage
      | some captures => simp [action, Route.isPage] at isPage
    simp [elsewhere]
  | some line =>
    cases check : isPageId (uriUnescape line) with
    | false =>
      have elsewhere : Route.invalidPageId ≠ route := by
        rintro rfl
        cases isPage
      simp [check, elsewhere]
    | true =>
      have last :
          captureAfter "/app/".toList (appPath rest) = some line :=
        captures
      have matched :
          ∃ found, appRoute isPost (appPath rest) = some found := by
        unfold appRoute
        rw [last]
        split
        · exact ⟨_, rfl⟩
        · split
          · exact ⟨_, rfl⟩
          · split
            · exact ⟨_, rfl⟩
            · exact ⟨_, rfl⟩
      obtain ⟨found, matched⟩ := matched
      simp [check, matched]

theorem appRoute_legacyApp_iff {path id : Text} :
    appRoute false path = some (.legacyApp id) ↔
      captureBetween "/app/".toList "/source".toList path = none ∧
        captureBetween "/app/".toList "/edit".toList path = none ∧
        captureAfter "/app/".toList path = some id := by
  unfold appRoute
  cases captureBetween "/app/".toList "/source".toList path with
  | some shown => simp
  | none =>
  cases captureBetween "/app/".toList "/edit".toList path with
  | some edited => simp
  | none => simp

theorem appRoute_pageEdit_iff {path id : Text} {isPost : Bool} :
    appRoute isPost path =
        some (if isPost then .pageEditPost id else .pageEdit id) ↔
      captureBetween "/app/".toList "/source".toList path = none ∧
        captureBetween "/app/".toList "/edit".toList path = some id := by
  unfold appRoute
  cases captureBetween "/app/".toList "/source".toList path with
  | some shown => cases isPost <;> simp
  | none =>
  cases captureBetween "/app/".toList "/edit".toList path with
  | some edited => cases isPost <;> simp
  | none =>
    cases isPost with
    | false => simp
    | true => cases captureAction path <;> simp

theorem captureBetween_eq_none_iff {start stop path line : Text}
    (captures : captureAfter start path = some line) (longer : line ≠ stop) :
    captureBetween start stop path = none ↔ ¬stop <:+ line := by
  constructor
  · rintro cut ⟨before, rfl⟩
    have nonempty : before ≠ [] := by
      rintro rfl
      exact longer rfl
    rw [captureBetween_of_eq_append nonempty captures] at cut
    cases cut
  · intro noEnd
    by_contra cut
    obtain ⟨between, cut⟩ := Option.ne_none_iff_exists'.mp cut
    have isLine := eq_append_of_captureBetween cut
    obtain rfl := Option.some.inj (captures.symm.trans isLine)
    exact noEnd (List.suffix_append _ _)

theorem ne_slash_cons {pageId rest : Text}
    (segments : [] ∉ pageId.splitOn '/') : pageId ≠ '/' :: rest := by
  rintro rfl
  apply segments
  have split : ('/' :: rest).splitOn '/' = [] :: rest.splitOn '/' :=
    List.splitOn_append_cons_self_of_not_mem List.not_mem_nil rest
  rw [split]
  exact List.mem_cons_self

theorem renders_iff {pageId : Text} (nonempty : pageId ≠ [])
    (segments : [] ∉ pageId.splitOn '/') :
    dispatchRequest (appPath pageId) false = .legacyApp pageId ↔
      '\n' ∉ pageId ∧ isPageId (uriUnescape pageId) = true ∧
        ¬"/source".toList <:+ pageId ∧ ¬"/edit".toList <:+ pageId := by
  rw [dispatchRequest_isPage_iff rfl]
  constructor
  · rintro ⟨line, captures, check, isRoute⟩
    obtain ⟨noSource, noEdit, isId⟩ := appRoute_legacyApp_iff.mp isRoute
    obtain rfl := Option.some.inj (captures.symm.trans isId)
    exact ⟨(oneLine_of_lineCapture captures).2, check,
      (captureBetween_eq_none_iff isId (ne_slash_cons segments)).mp noSource,
      (captureBetween_eq_none_iff isId (ne_slash_cons segments)).mp noEdit⟩
  · rintro ⟨oneLine, check, noSource, noEdit⟩
    have captures := lineCapture_of_oneLine nonempty oneLine
    have isId : captureAfter "/app/".toList (appPath pageId) = some pageId :=
      captures
    exact ⟨pageId, captures, check, appRoute_legacyApp_iff.mpr
      ⟨(captureBetween_eq_none_iff isId (ne_slash_cons segments)).mpr
          noSource,
        (captureBetween_eq_none_iff isId (ne_slash_cons segments)).mpr
          noEdit,
        isId⟩⟩

theorem not_source_suffix (pageId : Text) :
    ¬"/source".toList <:+ pageId ++ "/edit".toList := by
  rintro ⟨before, same⟩
  have lasts := congrArg List.getLast? same
  rw [List.getLast?_append, List.getLast?_append] at lasts
  injection lasts with lasts
  exact absurd lasts (by decide)

theorem edits_iff {pageId : Text} {isPost : Bool} (nonempty : pageId ≠ []) :
    dispatchRequest (appPath (pageId ++ "/edit".toList)) isPost =
        (if isPost then .pageEditPost pageId else .pageEdit pageId) ↔
      '\n' ∉ pageId ∧
        isPageId (uriUnescape pageId ++ "/edit".toList) = true := by
  have isPage :
      (if isPost then Route.pageEditPost pageId
        else Route.pageEdit pageId).isPage = true := by
    cases isPost <;> rfl
  have unescaped :
      uriUnescape (pageId ++ "/edit".toList) =
        uriUnescape pageId ++ "/edit".toList :=
    PercentCoding.decode_append_cons (by decide)
  rw [dispatchRequest_isPage_iff isPage]
  constructor
  · rintro ⟨line, captures, check, isRoute⟩
    obtain ⟨-, isEdit⟩ := appRoute_pageEdit_iff.mp isRoute
    have isLine := eq_append_of_captureBetween isEdit
    obtain rfl := Option.some.inj (captures.symm.trans isLine)
    refine ⟨?_, unescaped ▸ check⟩
    intro inId
    exact (oneLine_of_lineCapture captures).2
      (List.mem_append_left _ inId)
  · rintro ⟨oneLine, check⟩
    have oneLineToo : '\n' ∉ pageId ++ "/edit".toList := by
      rw [List.mem_append, not_or]
      exact ⟨oneLine, by decide⟩
    have captures :=
      lineCapture_of_oneLine (List.append_ne_nil_of_left_ne_nil nonempty _)
        oneLineToo
    have isLine :
        captureAfter "/app/".toList (appPath (pageId ++ "/edit".toList)) =
          some (pageId ++ "/edit".toList) := captures
    have different : pageId ++ "/edit".toList ≠ "/source".toList := by
      intro same
      exact not_source_suffix pageId (same ▸ List.suffix_refl _)
    exact ⟨_, captures, unescaped ▸ check, appRoute_pageEdit_iff.mpr
      ⟨(captureBetween_eq_none_iff isLine different).mpr
          (not_source_suffix pageId),
        captureBetween_of_eq_append nonempty isLine⟩⟩

theorem eq_of_edits {pageId id : Text}
    (edits :
      dispatchRequest (appPath (pageId ++ "/edit".toList)) false =
        .pageEdit id) :
    id = pageId := by
  obtain ⟨line, captures, -, isRoute⟩ :=
    (dispatchRequest_isPage_iff rfl).mp edits
  obtain ⟨-, isEdit⟩ := (@appRoute_pageEdit_iff _ _ false).mp isRoute
  have isLine := eq_append_of_captureBetween isEdit
  rw [captureAfter_appPath] at isLine
  have whole : (pageId ++ "/edit".toList).getLast? ≠ some '\n' := by
    rw [List.getLast?_append]
    intro isNewline
    injection isNewline with isNewline
    exact absurd isNewline (by decide)
  exact List.append_cancel_right (eq_of_lineCapture whole isLine)

theorem linksLeadBack_iff (safe : UriSafeSet) {id : Text} :
    LinksLeadBack safe id ↔ (isPageId id = true → IsRoutable id) := by
  refine imp_congr_right ?_
  intro accepted
  obtain ⟨pageId, accepts⟩ := Option.isSome_iff_exists.mp accepted
  have isId := isPageIdOf_of_validated accepts
  have rendered : appPath (pageId ++ LinkKind.render.ending) = appPath pageId :=
    congrArg appPath (List.append_nil pageId)
  constructor
  · intro leads
    have narrow : PercentCoding.isNarrow pageId = true := by
      by_contra wide
      have noLink := followLink_eq_none safe isId wide .edit
      rw [leads .edit] at noLink
      cases noLink
    have edits := leads .edit
    rw [followLink_eq safe isId narrow] at edits
    obtain rfl := eq_of_edits (Option.some.inj edits)
    have renders := leads .render
    rw [followLink_eq safe isId narrow] at renders
    have conditions :=
      (renders_iff isId.nonempty isId.segments).mp
        (rendered ▸ Option.some.inj renders)
    have editable :=
      (@edits_iff _ false isId.nonempty).mp (Option.some.inj edits)
    exact
      { normal := accepts
        narrow := narrow
        oneLine := editable.1
        noSource := conditions.2.2.1
        noEdit := conditions.2.2.2
        decoded := conditions.2.1
        decodedEdit := editable.2 }
  · intro routable kind
    obtain rfl := Option.some.inj (routable.normal.symm.trans accepts)
    rw [followLink_eq safe isId routable.narrow]
    have edits (isPost : Bool) :=
      (@edits_iff _ isPost isId.nonempty).mpr
        ⟨routable.oneLine, routable.decodedEdit⟩
    cases kind with
    | render =>
      change some (dispatchRequest (appPath _) false) = _
      rw [rendered]
      exact congrArg some <|
        (renders_iff isId.nonempty isId.segments).mpr
          ⟨routable.oneLine, routable.decoded, routable.noSource,
            routable.noEdit⟩
    | edit => exact congrArg some (edits false)
    | formAction => exact congrArg some (edits true)
    | source => exact congrArg some (edits false)

theorem LinkKind.handler_injective
    {id other : Text} {kind otherKind : LinkKind}
    (same : kind.handler id = otherKind.handler other) : id = other := by
  cases kind <;> cases otherKind <;> cases same <;> rfl

theorem linksStayApart_of_leadBack {safe : UriSafeSet} {one other : Text}
    (leadBack : LinksLeadBack safe one)
    (leadBackToo : LinksLeadBack safe other) :
    LinksStayApart safe one other := by
  intro accepted acceptedToo different kind otherKind route follows follows'
  rw [leadBack accepted] at follows
  rw [leadBackToo acceptedToo, ← follows] at follows'
  exact different (LinkKind.handler_injective (Option.some.inj follows')).symm

def unreserved : UriSafeSet where
  isSafe char :=
    char.isAlphanum || char = '-' || char = '.' || char = '_' || char = '~'
  percent := by decide
  question := by decide
  hash := by decide
  ampersand := by decide

end DeveloperDashboard.Web
