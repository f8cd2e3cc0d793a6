import DeveloperDashboard.Web.AjaxResponse
import DeveloperDashboard.Web.RoutableIds

namespace DeveloperDashboard.Web

open Library Perl

/-!
# Built queries

A saved bookmark is forwarded with a query that is built from the parameters of
the request, and the page that it leads to parses that query.
-/

/-- What `uri_escape` leaves alone, in a query. -/
structure QuerySafeSet extends UriSafeSet where
  equals : isSafe '=' = false
  plus : isSafe '+' = false

variable (safe : QuerySafeSet)

def pairText (entry : Text × Text) : Option Text :=
  (uriEscape safe.toUriSafeSet entry.1).bind fun name =>
    (uriEscape safe.toUriSafeSet entry.2).map fun value =>
      name ++ '=' :: value

/-- `_build_query`, which dies at a wide character. -/
def buildQuery (params : Params) : Option Text :=
  ((params.insertionSort fun left right => left.1 ≤ right.1).mapM
    (pairText safe)).map ['&'].intercalate

variable {safe}

/-- What is escaped is read back, and holds no mark of a query. -/
theorem uriEscape_query {text escaped : Text}
    (escapes : uriEscape safe.toUriSafeSet text = some escaped) :
    uriUnescape escaped = text ∧ plusToSpace escaped = escaped ∧
      '=' ∉ escaped ∧ '&' ∉ escaped := by
  have plain {char : Char} (isUnsafe : safe.isSafe char = false)
      (different : char ≠ '%')
      (noDigit : PercentCoding.hexValue? char = none) : char ∉ escaped :=
    PercentCoding.not_mem_of_escape _ escapes isUnsafe different noDigit
  have noPlus := plain safe.plus (by decide) (by decide)
  refine ⟨?_, ?_, plain safe.equals (by decide) (by decide),
    plain safe.ampersand (by decide) (by decide)⟩
  · simpa [uriUnescape, PercentCoding.decode] using
      PercentCoding.decode_escape_append _ escapes []
  · refine (List.map_congr_left fun char isIn => if_neg ?_).trans
      (List.map_id _)
    rintro rfl
    exact noPlus isIn

theorem queryPair_pairText {entry : Text × Text} {text : Text}
    (written : pairText safe entry = some text) (named : entry.1 ≠ []) :
    queryPair text = some entry ∧ '&' ∉ text := by
  obtain ⟨name, nameEscapes, written⟩ := Option.bind_eq_some_iff.mp written
  obtain ⟨value, valueEscapes, rfl⟩ := Option.map_eq_some_iff.mp written
  obtain ⟨nameRead, namePlus, nameEquals, nameMark⟩ :=
    uriEscape_query nameEscapes
  obtain ⟨valueRead, valuePlus, -, valueMark⟩ := uriEscape_query valueEscapes
  have isName : ∀ char ∈ name, decide (char ≠ '=') = true := fun char isIn =>
    decide_eq_true (ne_of_mem_of_not_mem isIn nameEquals)
  have notEmpty : name ≠ [] := by
    rintro rfl
    exact named nameRead.symm
  refine ⟨?_, by simp [nameMark, valueMark]⟩
  unfold queryPair
  rw [List.takeWhile_append_of_pos isName, List.dropWhile_append_of_pos isName]
  simp [notEmpty, namePlus, valuePlus, nameRead, valueRead]

/-- The induction is on the entries; what is parsed before them stays. -/
theorem parse_pairTexts {entries : Params} {texts : List Text}
    (written : entries.mapM (pairText safe) = some texts)
    (named : ∀ entry ∈ entries, entry.1 ≠ []) (params : Params)
    (distinct : ((params ++ entries).map Prod.fst).Nodup) :
    (∀ text ∈ texts, '&' ∉ text) ∧
      texts.foldl (fun params pair =>
        match queryPair pair with
        | some (name, value) => params.store name value
        | none => params) params = params ++ entries := by
  induction entries generalizing texts params with
  | nil =>
    obtain rfl : texts = [] := by simpa using written.symm
    simp
  | cons entry rest ih =>
    simp only [List.mapM_cons, Option.bind_eq_bind, Option.pure_def,
      Option.bind_eq_some_iff] at written
    obtain ⟨text, first, later, written, ⟨⟩⟩ := written
    obtain ⟨read, plain⟩ := queryPair_pairText first (named _ (by simp))
    have absent : params.lookup entry.1 = none := by
      rw [Entries.lookup_eq_none_iff]
      rw [List.map_append] at distinct
      exact fun isIn => List.disjoint_of_nodup_append distinct isIn (by simp)
    obtain ⟨plains, parsed⟩ := ih written
      (fun entry isIn => named entry (List.mem_cons_of_mem _ isIn))
      (params ++ [entry]) (by simpa using distinct)
    refine ⟨List.forall_mem_cons.mpr ⟨plain, plains⟩, ?_⟩
    simp only [List.foldl_cons, read]
    rw [Entries.store_of_lookup_eq_none absent, parsed, List.append_assoc]
    rfl

/-- The parameters that a query is built from are the ones that it gives. -/
theorem parseQuery_buildQuery {params : Params} {query : Text}
    (named : ∀ entry ∈ params, entry.1 ≠ [])
    (distinct : (params.map Prod.fst).Nodup)
    (built : buildQuery safe params = some query) :
    (parseQuery query).Perm params := by
  obtain ⟨texts, written, rfl⟩ := Option.map_eq_some_iff.mp built
  have sorted := params.perm_insertionSort
    fun left right : Text × Text => left.1 ≤ right.1
  obtain ⟨plain, parsed⟩ := parse_pairTexts written
    (fun entry isIn => named entry (sorted.subset isIn)) []
    ((sorted.map Prod.fst).nodup_iff.mpr distinct)
  rcases eq_or_ne texts [] with rfl | notEmpty
  · exact (List.Perm.of_eq parsed).trans sorted
  · rw [parseQuery, List.splitOn_intercalate _ plain notEmpty]
    exact (List.Perm.of_eq parsed).trans sorted

theorem parseQuery_buildQuery_marks :
    (parseQuery "b=&q=a%26%3D%2B%20".toList).Perm
      [("q".toList, "a&=+ ".toList), ("b".toList, [])] :=
  @parseQuery_buildQuery ⟨unreserved, by decide, by decide⟩ _ _
    (by decide) (by decide) (by decide +kernel)

end DeveloperDashboard.Web
