import DeveloperDashboard.Library.PercentCoding
import DeveloperDashboard.Page.MigrateLegacy

namespace DeveloperDashboard.Web

open Library Perl Page

/-!
# Dispatch

`dispatch_request` tries patterns on the path of a request, one after the
other, and hands the request to the handler of the first that matches.
-/

/-- The capture of `(.+)$`: a line that ends the text, or stands before a
newline that ends it. -/
def lineCapture (text : Text) : Option Text :=
  let line :=
    if text.getLast? = some '\n' then text.dropLast else text
  if line = [] ∨ '\n' ∈ line then none else some line

/-- The capture of `(.+)$` behind a text that starts the path. -/
def captureAfter (start path : Text) : Option Text :=
  if start.isPrefixOf path then lineCapture (path.drop start.length)
  else none

/-- The capture of `(.+)` between a text that starts the path and one that ends
it. -/
def captureBetween (start stop path : Text) : Option Text :=
  (captureAfter start path).bind fun line =>
    if stop.isSuffixOf line ∧ stop.length < line.length then
      some (line.take (line.length - stop.length))
    else none

/-- The captures of `^/app/(.+)/action/([^/]+)$`. -/
def captureAction (path : Text) : Option (Text × Text) :=
  if "/app/".toList.isPrefixOf path then
    let rest := path.drop 5
    let action := rest.rtakeWhile (· ≠ '/')
    let before := rest.rdropWhile (· ≠ '/')
    let id := before.take (before.length - 8)
    if action ≠ [] ∧ "/action/".toList.isSuffixOf before ∧ id ≠ [] ∧
        '\n' ∉ id then
      some (id, action)
    else none
  else none

/-- The captures of `^/skill/([^/]+)/(.+)$`. -/
def captureSkill (path : Text) : Option (Text × Text) :=
  if "/skill/".toList.isPrefixOf path then
    let rest := path.drop 7
    let skill := rest.takeWhile (· ≠ '/')
    if skill = [] then none
    else
      (captureAfter ['/'] (rest.drop skill.length)).map fun route =>
        (skill, route)
  else none

/-- The captures of `^/(js|css|others)/(.+)$`. -/
def captureStatic (path : Text) : Option (Text × Text) :=
  ["js".toList, "css".toList, "others".toList].findSome? fun kind =>
    (captureAfter ('/' :: kind ++ ['/']) path).map fun file => (kind, file)

theorem oneLine_of_lineCapture
    {text line : Text} (captures : lineCapture text = some line) :
    line ≠ [] ∧ '\n' ∉ line := by
  unfold lineCapture at captures
  obtain ⟨plain, isLine⟩ :=
    Option.ite_none_left_eq_some.mp captures
  obtain rfl := Option.some.inj isLine
  exact not_or.mp plain

theorem lineCapture_of_oneLine
    {text : Text} (nonempty : text ≠ []) (oneLine : '\n' ∉ text) :
    lineCapture text = some text := by
  have notLast : text.getLast? ≠ some '\n' := by
    intro isLast
    exact oneLine (List.mem_of_mem_getLast? isLast)
  unfold lineCapture
  simp only [if_neg notLast]
  rw [if_neg (not_or.mpr ⟨nonempty, oneLine⟩)]

theorem eq_of_lineCapture
    {text line : Text} (notLast : text.getLast? ≠ some '\n')
    (captures : lineCapture text = some line) : line = text := by
  unfold lineCapture at captures
  simp only [if_neg notLast] at captures
  obtain ⟨-, isLine⟩ := Option.ite_none_left_eq_some.mp captures
  exact (Option.some.inj isLine).symm

/-- The handlers, with what they are handed beside the request. -/
inductive Route where
  /-- `_invalid_saved_page_id_response` -/
  | invalidPageId
  | root
  | authorizedLoginRedirect
  | appsRedirect
  | legacyAjax
  | ajaxSingletonStop
  | prefixedAjaxFile (ajaxPath : Text)
  | status
  | jqueryJs
  | markedJs
  | tiffJs
  | loadingImage
  | prefixedStaticFile (kind file : Text)
  | pageSource (id : Text)
  | pageEditPost (id : Text)
  | pageEdit (id : Text)
  | pageAction (id action : Text)
  | legacyApp (id : Text)
  | skillRoute (skillName route : Text)
  | transientAction
  /-- `_custom_skill_route_response`, or `Not found` -/
  | customSkillRoute (path : Text)
deriving DecidableEq

/-- `uri_unescape`. -/
def uriUnescape (text : Text) : Text :=
  PercentCoding.decode text

def fixedRoute (path : Text) : Option Route :=
  if path = "/".toList then some .root
  else if path = "/login".toList then some .authorizedLoginRedirect
  else if path = "/apps".toList then some .appsRedirect
  else if path = "/ajax".toList then some .legacyAjax
  else if path = "/ajax/singleton/stop".toList then some .ajaxSingletonStop
  else none

/-- The routes of the files that the application brings along. -/
def assetRoute (path : Text) : Option Route :=
  if path = "/system/status".toList then some .status
  else if path = "/js/jquery.js".toList ∨
      path = "/js/jquery-4.0.0.min.js".toList then some .jqueryJs
  else if path = "/marked.min.js".toList then some .markedJs
  else if path = "/tiff.min.js".toList then some .tiffJs
  else if path = "/loading.webp".toList then some .loadingImage
  else none

/-- The routes below `/app/`. -/
def appRoute (isPost : Bool) (path : Text) : Option Route :=
  match captureBetween "/app/".toList "/source".toList path with
  | some id => some (.pageSource id)
  | none =>
    match captureBetween "/app/".toList "/edit".toList path with
    | some id => some (if isPost then .pageEditPost id else .pageEdit id)
    | none =>
      match if isPost then captureAction path else none with
      | some (id, action) => some (.pageAction id action)
      | none => (captureAfter "/app/".toList path).map .legacyApp

/-- `_invalid_saved_page_id_response` has nothing to say. -/
def isPageId (id : Text) : Bool :=
  (validatedPageId id).isSome

/-- `dispatch_request`. -/
def dispatchRequest (path : Text) (isPost : Bool) : Route :=
  if (captureAfter "/app/".toList path).any fun id =>
      !isPageId (uriUnescape id) then
    .invalidPageId
  else
    ((fixedRoute path).or <|
      ((captureAfter "/ajax/".toList path).map fun rest =>
        .prefixedAjaxFile (uriUnescape rest)).or <|
      (assetRoute path).or <|
      ((captureStatic path).map fun captures =>
        .prefixedStaticFile captures.1 (uriUnescape captures.2)).or <|
      (appRoute isPost path).or <|
      ((captureSkill path).map fun captures =>
        .skillRoute captures.1 captures.2).or <|
      if path = "/action".toList ∧ isPost then some .transientAction
      else none).getD (.customSkillRoute path)

end DeveloperDashboard.Web
