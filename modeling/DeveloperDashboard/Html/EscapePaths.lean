import DeveloperDashboard.Html.HtmlEscape

namespace DeveloperDashboard.Html

open Library DeveloperDashboard.Perl

/-!
# The paths of the HTML escapers

Whatever path is taken, the characters of a text are replaced one by one.  The
native loops refuse a text of which the escaped form might not have a length;
the substitutions take any text.
-/

def bodyTable : ReplacementTable Nat :=
  ((ReplacementTable.none.extend 0x26 (ampEntity.map UInt8.toNat)).extend
    0x3C (ltEntity.map UInt8.toNat)).extend
    0x3E (gtEntity.map UInt8.toNat)

/-- The characters that `_html` replaces. -/
def pageTable : ReplacementTable Nat :=
  bodyTable.extend 0x22 (quotEntity.map UInt8.toNat)

def attrTable : ReplacementTable Nat :=
  pageTable.extend 0x27 (aposEntity.map UInt8.toNat)

def fiveEntities : RestoringTable Nat :=
  [(0x26, ampEntity.map UInt8.toNat), (0x3C, ltEntity.map UInt8.toNat),
    (0x3E, gtEntity.map UInt8.toNat), (0x22, quotEntity.map UInt8.toNat),
    (0x27, aposEntity.map UInt8.toNat)]

def Returns (result : Except String HeldString) (codes : List Nat) : Prop :=
  ∃ escaped, result = .ok escaped ∧ escaped.ReadsAs codes

/-- A path refuses exactly the texts that are too long. -/
def ReturnsWithin (limit : Nat) (message : String) (length : Nat)
    (result : Except String HeldString) (codes : List Nat) : Prop :=
  (length ≤ limit → Returns result codes) ∧
    (limit < length → result = .error message)

/-- A path may refuse texts that are too long. -/
def ReturnsOrRefuses (limit : Nat) (message : String) (length : Nat)
    (result : Except String HeldString) (codes : List Nat) : Prop :=
  Returns result codes ∨ (limit < length ∧ result = .error message)

structure PathsAgree
    (sizeMax : Nat) (text : HeldString) (codes : List Nat) : Prop where
  byBytes :
    ReturnsWithin (bodyLimit sizeMax) bodyTooLarge text.byteLength
      (xsEscapeHtml sizeMax (some text)) (replaceEach bodyTable codes)
  bySpans :
    ReturnsWithin (bodyLimit sizeMax) bodyTooLarge text.byteLength
      (xsEscapeHtmlChunked sizeMax (some text))
      (replaceEach bodyTable codes)
  bySubstitutions :
    (escapeHtmlPerl (some text)).ReadsAs (replaceEach bodyTable codes)
  body :
    ReturnsOrRefuses (bodyLimit sizeMax) bodyTooLarge text.byteLength
      (escapeHtml true sizeMax (some text)) (replaceEach bodyTable codes)
  bodyInPerl :
    Returns (escapeHtml false sizeMax (some text))
      (replaceEach bodyTable codes)
  page :
    ReturnsOrRefuses (bodyLimit sizeMax) bodyTooLarge text.byteLength
      (html true sizeMax (some text)) (replaceEach pageTable codes)
  pageInPerl :
    Returns (html false sizeMax (some text)) (replaceEach pageTable codes)
  attr :
    ReturnsWithin (attrLimit sizeMax) attrTooLarge text.byteLength
      (escapeHtmlAttr true sizeMax (some text))
      (replaceEach attrTable codes)
  attrInPerl :
    Returns (escapeHtmlAttr false sizeMax (some text))
      (replaceEach attrTable codes)
  writtenByBytes :
    (byteLoop bodyCase [] text.bytes).length + 1 ≤
      5 * text.byteLength + 1
  writtenBySpans :
    (spanLoop text.byteLength [] text.bytes).length + 1 ≤
      5 * text.byteLength + 1
  writtenForAttr :
    (byteLoop attrCase [] text.bytes).length + 1 ≤
      6 * text.byteLength + 1
  bodyRestored :
    restoreEach fiveEntities (replaceEach bodyTable codes) = codes
  pageRestored :
    restoreEach fiveEntities (replaceEach pageTable codes) = codes
  attrRestored :
    restoreEach fiveEntities (replaceEach attrTable codes) = codes

section Loops

theorem byteLoop_eq
    (entityOf : UInt8 → Option Bytes) (target source : Bytes) :
    byteLoop entityOf target source =
      target ++ replaceEach entityOf source := by
  induction source generalizing target with
  | nil => exact (List.append_nil target).symm
  | cons byte rest ih =>
    rw [byteLoop, replaceEach_cons]
    cases entityOf byte with
    | none =>
      exact (ih _).trans (List.append_assoc _ _ _)
    | some entity =>
      exact (ih _).trans (List.append_assoc _ _ _)

theorem earlier_map_succ (first second : Option Nat) :
    earlier (first.map (· + 1)) (second.map (· + 1)) =
      (earlier first second).map (· + 1) := by
  cases first with
  | none => cases second <;> rfl
  | some first =>
    cases second with
    | none => rfl
    | some second =>
      simp only [Option.map_some, earlier, Nat.add_lt_add_iff_right]
      split <;> rfl

theorem earlier_findIdx? (first second : UInt8 → Bool) (text : Bytes) :
    earlier (text.findIdx? first) (text.findIdx? second) =
      text.findIdx? fun byte => first byte || second byte := by
  induction text with
  | nil => rfl
  | cons byte rest ih =>
    simp only [List.findIdx?_cons]
    cases first byte with
    | true =>
      cases second byte with
      | true => rfl
      | false =>
        cases rest.findIdx? second with
        | none => rfl
        | some position => rfl
    | false =>
      cases second byte with
      | true =>
        cases rest.findIdx? first with
        | none => rfl
        | some position => rfl
      | false =>
        simp only [Bool.false_eq_true, if_false, Bool.or_self]
        rw [earlier_map_succ, ih]

/-- The three searches find the first byte that is replaced. -/
theorem earliest_memchr (cursor : Bytes) :
    earlier
        (earlier (memchr ampersand cursor) (memchr lessThan cursor))
        (memchr greaterThan cursor) =
      cursor.findIdx? fun byte => (bodyCase byte).isSome := by
  unfold memchr
  rw [earlier_findIdx?, earlier_findIdx?]
  congr 1
  funext byte
  unfold bodyCase
  by_cases isAmp : byte = ampersand
  · simp [isAmp]
  by_cases isLt : byte = lessThan
  · subst isLt
    rfl
  by_cases isGt : byte = greaterThan
  · subst isGt
    rfl
  simp [isAmp, isLt, isGt]

theorem bodyCase_eq_some {byte : UInt8} {entity : Bytes}
    (found : bodyCase byte = some entity) :
    entity =
      if some byte = some ampersand then ampEntity
      else if some byte = some lessThan then ltEntity
      else gtEntity := by
  unfold bodyCase at found
  simp only [Option.some.injEq]
  split_ifs at found ⊢
  all_goals exact (Option.some.inj found).symm

theorem spanLoop_eq (steps : Nat) (target cursor : Bytes)
    (enough : cursor.length ≤ steps) :
    spanLoop steps target cursor =
      target ++ replaceEach bodyCase cursor := by
  induction steps generalizing target cursor with
  | zero =>
    rw [List.length_eq_zero_iff.mp (Nat.le_zero.mp enough)]
    exact (List.append_nil target).symm
  | succ steps ih =>
    simp only [spanLoop, earliest_memchr]
    by_cases atEnd : cursor.isEmpty
    · rw [if_pos atEnd, List.isEmpty_iff.mp atEnd]
      exact (List.append_nil target).symm
    rw [if_neg atEnd]
    cases found :
        cursor.findIdx? fun byte => (bodyCase byte).isSome with
    | none => simp only [replaceEach_of_findIdx?_eq_none found]
    | some span =>
      obtain ⟨byte, entity, here, isCase, replaced⟩ :=
        replaceEach_of_findIdx?_eq_some found
      have head : (cursor.drop span).head? = some byte := by
        rw [List.head?_drop, here]
      have shorter : (cursor.drop (span + 1)).length ≤ steps := by
        rw [List.length_drop]
        omega
      simp only [head]
      rw [ih _ _ shorter, replaced, bodyCase_eq_some isCase]
      split_ifs
      all_goals simp only [List.append_assoc]

end Loops

variable {table : ReplacementTable Nat}

section Tables

theorem byteTable_extend
    (table : ReplacementTable Nat) {code : Nat} (isByte : code < 256)
    (entry : List Nat) :
    byteTable (table.extend code entry) =
      (byteTable table).extend (UInt8.ofNat code)
        (entry.map UInt8.ofNat) := by
  funext byte
  unfold byteTable ReplacementTable.extend
  have same : byte.toNat = code ↔ byte = UInt8.ofNat code := by
    rw [← UInt8.toNat_inj, UInt8.toNat_ofNat']
    omega
  by_cases here : byte = UInt8.ofNat code
  · rw [if_pos here, if_pos (same.mpr here), Option.map_some]
  · rw [if_neg here, if_neg (mt same.mp here)]

theorem byteTable_bodyTable : byteTable bodyTable = bodyCase := by
  unfold bodyTable
  rw [byteTable_extend _ (by decide), byteTable_extend _ (by decide),
    byteTable_extend _ (by decide)]
  funext byte
  unfold ReplacementTable.extend bodyCase
  by_cases isAmp : byte = ampersand
  · subst isAmp
    rfl
  by_cases isLt : byte = lessThan
  · subst isLt
    rfl
  by_cases isGt : byte = greaterThan
  · subst isGt
    rfl
  rw [if_neg isAmp, if_neg isLt, if_neg isGt]
  exact (if_neg isGt).trans ((if_neg isLt).trans (if_neg isAmp))

theorem byteTable_pageTable :
    byteTable pageTable =
      (byteTable bodyTable).extend doubleQuote quotEntity :=
  byteTable_extend _ (by decide) _

theorem byteTable_attrTable : byteTable attrTable = attrCase := by
  unfold attrTable
  rw [byteTable_extend _ (by decide), byteTable_pageTable,
    byteTable_bodyTable]
  funext byte
  unfold ReplacementTable.extend attrCase bodyCase
  by_cases isQuot : byte = doubleQuote
  · subst isQuot
    rfl
  by_cases isApos : byte = singleQuote
  · subst isApos
    rfl
  refine ((if_neg isApos).trans (if_neg isQuot)).trans ?_
  rw [if_neg isQuot, if_neg isApos]

theorem forall_bodyTable {Holds : Nat → List Nat → Prop}
    (amp : Holds 0x26 (ampEntity.map UInt8.toNat))
    (lt : Holds 0x3C (ltEntity.map UInt8.toNat))
    (gt : Holds 0x3E (gtEntity.map UInt8.toNat)) :
    ∀ code entry, bodyTable code = some entry → Holds code entry :=
  ReplacementTable.forall_extend gt
    (ReplacementTable.forall_extend lt
      (ReplacementTable.forall_extend amp ReplacementTable.forall_none))

theorem forall_attrTable {Holds : Nat → List Nat → Prop}
    (body : ∀ code entry, bodyTable code = some entry → Holds code entry)
    (quot : Holds 0x22 (quotEntity.map UInt8.toNat))
    (apos : Holds 0x27 (aposEntity.map UInt8.toNat)) :
    ∀ code entry, attrTable code = some entry → Holds code entry :=
  ReplacementTable.forall_extend apos
    (ReplacementTable.forall_extend quot body)

theorem isAsciiTable_bodyTable : IsAsciiTable bodyTable :=
  forall_bodyTable (by decide) (by decide) (by decide)

theorem isAsciiTable_pageTable : IsAsciiTable pageTable :=
  ReplacementTable.forall_extend (by decide) isAsciiTable_bodyTable

theorem isAsciiTable_attrTable : IsAsciiTable attrTable :=
  ReplacementTable.forall_extend (by decide) isAsciiTable_pageTable

theorem isPrefixCode_fiveEntities :
    IsPrefixCode (· ∈ fiveEntities) Prod.snd := by
  intro first second isFirst isSecond rest others same
  unfold fiveEntities at isFirst isSecond
  simp only [List.mem_cons, List.not_mem_nil, or_false]
    at isFirst isSecond
  rcases isFirst with rfl | rfl | rfl | rfl | rfl <;>
    rcases isSecond with rfl | rfl | rfl | rfl | rfl
  all_goals
    first
      | rfl
      | simp [ampEntity, ltEntity, gtEntity, quotEntity, aposEntity]
          at same

theorem restored (replaced : (table 0x26).isSome)
    (listed : ∀ code entry, table code = some entry →
      (code, entry) ∈ fiveEntities)
    (codes : List Nat) :
    restoreEach fiveEntities (replaceEach table codes) = codes := by
  refine restoreEach_replaceEach isPrefixCode_fiveEntities ?_ replaced
    listed codes
  decide

end Tables

section Substitutions

theorem substitute_replaceBytes
    {table : ReplacementTable UInt8} {character : UInt8} {entity : Bytes}
    (fresh : table character = none)
    (absent : ∀ byte text, table byte = some text → character ∉ text)
    (text : HeldString) :
    substitute character entity (text.replaceBytes table) =
      text.replaceBytes (table.extend character entity) := by
  unfold substitute HeldString.replaceBytes
  rw [replaceEach_single_replaceEach fresh absent]

theorem bodySubstitutions_eq (text : HeldString) :
    bodySubstitutions text = text.replaceBytes (byteTable bodyTable) := by
  unfold bodySubstitutions
  simp only
  have amp :
      substitute ampersand ampEntity text =
        text.replaceBytes (.single ampersand ampEntity) := rfl
  rw [amp, substitute_replaceBytes rfl, substitute_replaceBytes rfl]
  · unfold bodyTable
    rw [byteTable_extend _ (by decide), byteTable_extend _ (by decide),
      byteTable_extend _ (by decide)]
    rfl
  · exact ReplacementTable.forall_extend (by decide)
      (ReplacementTable.forall_extend (by decide)
        ReplacementTable.forall_none)
  · exact ReplacementTable.forall_extend (by decide)
      ReplacementTable.forall_none

theorem forall_bodyCase {Holds : UInt8 → Bytes → Prop}
    (amp : Holds ampersand ampEntity) (lt : Holds lessThan ltEntity)
    (gt : Holds greaterThan gtEntity) (byte : UInt8) (entity : Bytes)
    (found : bodyCase byte = some entity) : Holds byte entity := by
  unfold bodyCase at found
  split_ifs at found with isAmp isLt isGt
  · exact isAmp ▸ Option.some.inj found ▸ amp
  · exact isLt ▸ Option.some.inj found ▸ lt
  · exact isGt ▸ Option.some.inj found ▸ gt

theorem substitute_body (text : HeldString) :
    substitute doubleQuote quotEntity
        (text.replaceBytes (byteTable bodyTable)) =
      text.replaceBytes (byteTable pageTable) := by
  rw [byteTable_pageTable, byteTable_bodyTable]
  refine substitute_replaceBytes rfl ?_ text
  exact forall_bodyCase (by decide) (by decide) (by decide)

theorem substitute_page (text : HeldString) :
    substitute singleQuote aposEntity
        (text.replaceBytes (byteTable pageTable)) =
      text.replaceBytes (byteTable attrTable) := by
  unfold attrTable
  rw [byteTable_extend _ (by decide), byteTable_pageTable,
    byteTable_bodyTable]
  refine substitute_replaceBytes rfl ?_ text
  exact ReplacementTable.forall_extend (by decide)
    (forall_bodyCase (by decide) (by decide) (by decide))

theorem replaceBytes_of_untouched
    {table : ReplacementTable UInt8} {text : HeldString}
    (untouched : ∀ byte ∈ text.bytes, table byte = none) :
    text.replaceBytes table = text := by
  unfold HeldString.replaceBytes
  rw [replaceEach_of_untouched untouched]

theorem not_mem_of_index {text : HeldString} {character : UInt8}
    (notFound : (index text character).isNone = true) :
    character ∉ text.bytes := by
  intro member
  rw [Option.isNone_iff_eq_none, index, Option.map_eq_none_iff, memchr,
    List.findIdx?_eq_none_iff] at notFound
  have missed := notFound character member
  simp at missed

end Substitutions

section Paths

variable {text : HeldString} (sizeMax : Nat)

/-- A text is replaced, or refused because it is too long. -/
def ReplacedOrRefused
    (table : ReplacementTable Nat) (limit : Nat) (message : String)
    (text : HeldString) (result : Except String HeldString) : Prop :=
  result = .ok (text.replaceBytes (byteTable table)) ∨
    (limit < text.byteLength ∧ result = .error message)

theorem untouched_body
    (noAmp : ampersand ∉ text.bytes) (noLt : lessThan ∉ text.bytes)
    (noGt : greaterThan ∉ text.bytes) :
    ∀ byte ∈ text.bytes, byteTable bodyTable byte = none := by
  intro byte member
  rw [byteTable_bodyTable, bodyCase,
    if_neg (ne_of_mem_of_not_mem member noAmp),
    if_neg (ne_of_mem_of_not_mem member noLt),
    if_neg (ne_of_mem_of_not_mem member noGt)]

theorem untouched_page
    (noBody : ∀ byte ∈ text.bytes, byteTable bodyTable byte = none)
    (noQuot : doubleQuote ∉ text.bytes) :
    ∀ byte ∈ text.bytes, byteTable pageTable byte = none := by
  intro byte member
  rw [byteTable_pageTable, ReplacementTable.extend,
    if_neg (ne_of_mem_of_not_mem member noQuot)]
  exact noBody byte member

theorem untouched_attr
    (noPage : ∀ byte ∈ text.bytes, byteTable pageTable byte = none)
    (noApos : singleQuote ∉ text.bytes) :
    ∀ byte ∈ text.bytes, byteTable attrTable byte = none := by
  intro byte member
  unfold attrTable
  rw [byteTable_extend _ (by decide)]
  have other := ne_of_mem_of_not_mem member noApos
  exact (if_neg other).trans (noPage byte member)

theorem xsEscapeHtml_eq (text : HeldString) :
    xsEscapeHtml sizeMax (some text) =
      if bodyLimit sizeMax < text.byteLength then .error bodyTooLarge
      else .ok (text.replaceBytes (byteTable bodyTable)) := by
  simp only [xsEscapeHtml, HeldString.replaceBytes, byteLoop_eq,
    List.nil_append, byteTable_bodyTable]

theorem xsEscapeHtmlAttr_eq (text : HeldString) :
    xsEscapeHtmlAttr sizeMax (some text) =
      if attrLimit sizeMax < text.byteLength then .error attrTooLarge
      else .ok (text.replaceBytes (byteTable attrTable)) := by
  simp only [xsEscapeHtmlAttr, HeldString.replaceBytes, byteLoop_eq,
    List.nil_append, byteTable_attrTable]

theorem xsEscapeHtmlChunked_eq (text : HeldString) :
    xsEscapeHtmlChunked sizeMax (some text) =
      xsEscapeHtml sizeMax (some text) := by
  have spans := spanLoop_eq text.byteLength [] text.bytes (Nat.le_refl _)
  simp only [xsEscapeHtmlChunked, xsEscapeHtml, byteLoop_eq, spans]

theorem replacedOrRefused_xsEscapeHtml (text : HeldString) :
    ReplacedOrRefused bodyTable (bodyLimit sizeMax) bodyTooLarge text
      (xsEscapeHtml sizeMax (some text)) := by
  rw [xsEscapeHtml_eq]
  split
  · next long => exact .inr ⟨long, rfl⟩
  · exact .inl rfl

theorem earlier_eq_none_iff {first second : Option Nat} :
    earlier first second = none ↔ first = none ∧ second = none := by
  cases first with
  | none => simp [earlier]
  | some first =>
    cases second with
    | none => simp [earlier]
    | some second =>
      simp only [earlier]
      split <;> simp

theorem escapeHtml_false (text : HeldString) :
    escapeHtml false sizeMax (some text) =
      .ok (text.replaceBytes (byteTable bodyTable)) :=
  congrArg Except.ok (bodySubstitutions_eq text)

theorem replacedOrRefused_escapeHtml (text : HeldString) :
    ReplacedOrRefused bodyTable (bodyLimit sizeMax) bodyTooLarge text
      (escapeHtml true sizeMax (some text)) := by
  have native := replacedOrRefused_xsEscapeHtml sizeMax text
  simp only [escapeHtml, if_true]
  split
  · next notFound =>
      obtain ⟨noFirst, noGt⟩ := earlier_eq_none_iff.mp notFound
      obtain ⟨noAmp, noLt⟩ := earlier_eq_none_iff.mp noFirst
      have untouched :=
        untouched_body
          (not_mem_of_index (Option.isNone_iff_eq_none.mpr noAmp))
          (not_mem_of_index (Option.isNone_iff_eq_none.mpr noLt))
          (not_mem_of_index (Option.isNone_iff_eq_none.mpr noGt))
      exact .inl (congrArg _ (replaceBytes_of_untouched untouched).symm)
  · split_ifs
    · exact native
    · exact native
    · rw [xsEscapeHtmlChunked_eq]
      exact native

theorem html_false (text : HeldString) :
    html false sizeMax (some text) =
      .ok (text.replaceBytes (byteTable pageTable)) := by
  simp only [html, Option.getD_some, Bool.false_and]
  split
  · next notFound =>
      simp only [Bool.and_eq_true] at notFound
      obtain ⟨⟨⟨noAmp, noLt⟩, noGt⟩, noQuot⟩ := notFound
      have untouched :=
        untouched_page
          (untouched_body (not_mem_of_index noAmp)
            (not_mem_of_index noLt) (not_mem_of_index noGt))
          (not_mem_of_index noQuot)
      rw [replaceBytes_of_untouched untouched]
  · rw [if_neg Bool.false_ne_true, bodySubstitutions_eq, substitute_body]

/-- Whatever `_html` chooses. -/
theorem replacedOrRefused_html (text : HeldString) :
    ReplacedOrRefused pageTable (bodyLimit sizeMax) bodyTooLarge text
      (html true sizeMax (some text)) := by
  have inPerl := html_false sizeMax text
  simp only [html, Option.getD_some, Bool.false_and] at inPerl ⊢
  split at inPerl
  · next notFound =>
      rw [if_pos notFound]
      exact .inl inPerl
  · next found =>
      rw [if_neg found]
      split
      · rcases replacedOrRefused_escapeHtml sizeMax text with
          replaced | ⟨long, refused⟩
        · rw [replaced]
          exact .inl (congrArg Except.ok (substitute_body text))
        · rw [refused]
          exact .inr ⟨long, rfl⟩
      · rw [if_neg Bool.false_ne_true] at inPerl
        exact .inl inPerl

theorem escapeHtmlAttr_false (text : HeldString) :
    escapeHtmlAttr false sizeMax (some text) =
      .ok (text.replaceBytes (byteTable attrTable)) := by
  unfold escapeHtmlAttr
  rw [if_neg Bool.false_ne_true]
  split
  · next notFound =>
      simp only [Option.any_some, Bool.and_eq_true] at notFound
      obtain ⟨⟨⟨⟨⟨-, noAmp⟩, noLt⟩, noGt⟩, noQuot⟩, noApos⟩ := notFound
      have untouched :=
        untouched_attr
          (untouched_page
            (untouched_body (not_mem_of_index noAmp)
              (not_mem_of_index noLt) (not_mem_of_index noGt))
            (not_mem_of_index noQuot))
          (not_mem_of_index noApos)
      rw [Option.getD_some, replaceBytes_of_untouched untouched]
  · rw [escapeHtml_false]
    have quotes :
        substitute singleQuote aposEntity
            (substitute doubleQuote quotEntity
              (text.replaceBytes (byteTable bodyTable))) =
          text.replaceBytes (byteTable attrTable) := by
      rw [substitute_body, substitute_page]
    exact congrArg Except.ok quotes

end Paths

variable {result : Except String HeldString}

section Agreement

variable {text : HeldString} {codes : List Nat}

theorem returns_replaced (ascii : IsAsciiTable table)
    (reads : text.ReadsAs codes)
    (replaced : result = .ok (text.replaceBytes (byteTable table))) :
    Returns result (replaceEach table codes) :=
  ⟨_, replaced, reads.replaceBytes ascii⟩

theorem ReplacedOrRefused.returns {limit : Nat} {message : String}
    (outcome : ReplacedOrRefused table limit message text result)
    (ascii : IsAsciiTable table) (reads : text.ReadsAs codes) :
    ReturnsOrRefuses limit message text.byteLength result
      (replaceEach table codes) := by
  rcases outcome with replaced | refused
  · exact .inl (returns_replaced ascii reads replaced)
  · exact .inr refused

theorem returnsWithin_of_guarded {limit : Nat} {message : String}
    (guarded : result =
      if limit < text.byteLength then .error message
      else .ok (text.replaceBytes (byteTable table)))
    (ascii : IsAsciiTable table) (reads : text.ReadsAs codes) :
    ReturnsWithin limit message text.byteLength result
      (replaceEach table codes) := by
  refine ⟨fun short => ?_, fun long => guarded.trans (if_pos long)⟩
  rw [if_neg (Nat.not_lt_of_le short)] at guarded
  exact returns_replaced ascii reads guarded

/-- Whatever path is taken, the characters are replaced one by one. -/
theorem pathsAgree (sizeMax : Nat) (text : HeldString) (codes : List Nat)
    (reads : text.ReadsAs codes) : PathsAgree sizeMax text codes where
  byBytes :=
    returnsWithin_of_guarded (xsEscapeHtml_eq sizeMax text)
      isAsciiTable_bodyTable reads
  bySpans :=
    returnsWithin_of_guarded
      ((xsEscapeHtmlChunked_eq sizeMax text).trans
        (xsEscapeHtml_eq sizeMax text))
      isAsciiTable_bodyTable reads
  bySubstitutions := by
    unfold escapeHtmlPerl
    rw [Option.getD_some, bodySubstitutions_eq]
    exact reads.replaceBytes isAsciiTable_bodyTable
  body :=
    (replacedOrRefused_escapeHtml sizeMax text).returns
      isAsciiTable_bodyTable reads
  bodyInPerl :=
    returns_replaced isAsciiTable_bodyTable reads
      (escapeHtml_false sizeMax text)
  page :=
    (replacedOrRefused_html sizeMax text).returns
      isAsciiTable_pageTable reads
  pageInPerl :=
    returns_replaced isAsciiTable_pageTable reads
      (html_false sizeMax text)
  attr :=
    returnsWithin_of_guarded (xsEscapeHtmlAttr_eq sizeMax text)
      isAsciiTable_attrTable reads
  attrInPerl :=
    returns_replaced isAsciiTable_attrTable reads
      (escapeHtmlAttr_false sizeMax text)
  writtenByBytes := by
    rw [byteLoop_eq, List.nil_append]
    refine Nat.succ_le_succ (length_replaceEach_le (by decide) ?_ _)
    exact forall_bodyCase (by decide) (by decide) (by decide)
  writtenBySpans := by
    have spans :=
      spanLoop_eq text.byteLength [] text.bytes (Nat.le_refl _)
    rw [spans, List.nil_append]
    refine Nat.succ_le_succ (length_replaceEach_le (by decide) ?_ _)
    exact forall_bodyCase (by decide) (by decide) (by decide)
  writtenForAttr := by
    rw [byteLoop_eq, List.nil_append]
    refine Nat.succ_le_succ (length_replaceEach_le (by decide) ?_ _)
    intro byte entity found
    unfold attrCase at found
    split_ifs at found
    all_goals
      rw [← Option.some.inj found]
      decide
  bodyRestored := by
    refine restored rfl ?_ codes
    exact forall_bodyTable (by decide) (by decide) (by decide)
  pageRestored := by
    refine restored rfl ?_ codes
    exact ReplacementTable.forall_extend (by decide)
      (forall_bodyTable (by decide) (by decide) (by decide))
  attrRestored := by
    refine restored rfl ?_ codes
    exact forall_attrTable
      (forall_bodyTable (by decide) (by decide) (by decide))
      (by decide) (by decide)

/-- The text `<a>&"'` in one byte for each character. -/
def markup : HeldString where
  bytes := [0x3C, 0x61, 0x3E, 0x26, 0x22, 0x27]
  utf8 := false

theorem pathsAgree_markup :
    PathsAgree (2 ^ 64 - 1) markup
      [0x3C, 0x61, 0x3E, 0x26, 0x22, 0x27] :=
  pathsAgree _ _ _ ⟨by decide, rfl⟩

/-- A text without sensitive characters, too long for 32 bits. -/
def longText : HeldString where
  bytes := (List.replicate (2 ^ 30) 0x61).map UInt8.ofNat
  utf8 := false

theorem native_escaper_refuses :
    ¬ ∀ text codes, HeldString.ReadsAs text codes →
      Returns (xsEscapeHtml (2 ^ 32 - 1) (some text))
        (replaceEach bodyTable codes) := by
  intro always
  have reads : longText.ReadsAs (List.replicate (2 ^ 30) 0x61) := by
    refine ⟨fun code member => ?_, rfl⟩
    rw [List.eq_of_mem_replicate member]
    decide
  have length : longText.byteLength = 2 ^ 30 := by
    unfold longText HeldString.byteLength
    rw [List.length_map, List.length_replicate]
  obtain ⟨escaped, returned, -⟩ := always longText _ reads
  rw [xsEscapeHtml_eq, length, if_pos (by decide)] at returned
  cases returned

end Agreement

end DeveloperDashboard.Html
