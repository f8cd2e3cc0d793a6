import DeveloperDashboard.Page.PageDocument

namespace DeveloperDashboard.Page

open Perl

/-!
# Saved text and the text that is read again

`save_page` prints the instruction text to a raw handle, and the reader decodes
the file as UTF-8.  The two agree on ASCII, and on text that `print` itself
turns into UTF-8 because of a wide character.
-/

structure MarksMalformed (decodeReplacing : Bytes → Text) : Prop where
  marks :
    ∀ raw, decodeStrict? raw = none →
      replacementChar ∈ decodeReplacing raw
  assigned :
    ∀ raw, decodeStrict? raw = none →
      (decodeReplacing raw).any isNoncharacter = false

/-- The texts that survive `print` and the reader. -/
def TextKept (text : Text) : Prop :=
  text.all isAscii = true ∨
    (text.all isNarrow = false ∧
      text.any isNoncharacter = false ∧
      normalizeLegacyIconMarkup text = text)

instance (text : Text) : Decidable (TextKept text) :=
  inferInstanceAs (Decidable (_ ∨ (_ ∧ _ ∧ _)))

variable {text : Text}

theorem all_substitute {class? : Char → Bool}
    {rule : Text → Option (Nat × Text)}
    (closed :
      ∀ {text new : Text} {length : Nat},
        rule text = some (length, new) →
        text.all class? = true → new.all class? = true)
    {skip : Nat} (all : text.all class? = true) :
    (substitute rule skip text).all class? = true := by
  induction text generalizing skip with
  | nil => cases skip <;> rfl
  | cons char rest ih =>
    have restAll : rest.all class? = true := by
      simp only [List.all_cons, Bool.and_eq_true] at all
      exact all.2
    cases skip with
    | succ skip => exact ih restAll
    | zero =>
      unfold substitute
      split
      · rename_i length new found
        rw [List.all_append, closed found all, ih restAll]
        rfl
      · simp only [List.all_cons, Bool.and_eq_true] at all ⊢
        exact ⟨all.1, ih restAll⟩

/-- A substitution that puts in wide characters leaves one. -/
theorem wide_substitute {rule : Text → Option (Nat × Text)}
    (wideRule :
      ∀ {text new : Text} {length : Nat},
        rule text = some (length, new) → new.all isNarrow = false)
    (wide : text.all isNarrow = false) :
    (substitute rule 0 text).all isNarrow = false := by
  induction text with
  | nil => contradiction
  | cons char rest ih =>
    unfold substitute
    split
    · rename_i length new found
      rw [List.all_append, wideRule found]
      rfl
    · by_cases narrow : isNarrow char = true
      · simp only [List.all_cons, narrow, Bool.true_and] at wide ⊢
        exact ih wide
      · simp [narrow]

def isAssigned (char : Char) : Bool :=
  !isNoncharacter char

theorem any_isNoncharacter_eq_false_iff (text : Text) :
    text.any isNoncharacter = false ↔ text.all isAssigned = true := by
  simp [isAssigned]

theorem all_takeWhile_drop {class? stop : Char → Bool} {count : Nat}
    (all : text.all class? = true) :
    ((text.drop count).takeWhile stop).all class? = true := by
  rw [List.all_eq_true] at all ⊢
  intro char member
  exact all char
    (List.mem_of_mem_drop ((List.takeWhile_subset _) member))

variable {length : Nat}

theorem technologistRule_new {new : Text}
    (found : technologistRule text = some (length, new)) :
    new.all isNarrow = false ∧ new.all isAssigned = true := by
  simp only [technologistRule] at found
  split at found
  · obtain ⟨-, rfl⟩ := Prod.mk.inj (Option.some.inj found)
    exact ⟨by decide, by decide⟩
  · contradiction

theorem headingIconRule_new {new : Text}
    (found : headingIconRule text = some (length, new)) :
    new.all isNarrow = false ∧
      (text.all isAssigned = true → new.all isAssigned = true) := by
  simp only [headingIconRule] at found
  split at found
  · obtain ⟨-, rfl⟩ := Prod.mk.inj (Option.some.inj found)
    have wide : isNarrow (Char.ofNat 0x25C8) = false := by decide
    have literal :
        ("<h2>".toList ++ [Char.ofNat 0x25C8]).all isAssigned = true := by
      decide
    refine ⟨by simp [wide], fun assigned => ?_⟩
    rw [List.all_append, literal, all_takeWhile_drop assigned]
    rfl
  · contradiction

/-- What the third substitution puts in. -/
theorem spanIconRule_new {new : Text}
    (found : spanIconRule text = some (length, new)) :
    new.all isNarrow = false ∧
      (text.all isAssigned = true → new.all isAssigned = true) := by
  simp only [spanIconRule] at found
  split at found
  · obtain ⟨-, rfl⟩ := Prod.mk.inj (Option.some.inj found)
    have wide : isNarrow (Char.ofNat 0x1F3F7) = false := by decide
    have opening : "<span".toList.all isAssigned = true := by decide
    have icon :
        [Char.ofNat 0x1F3F7, Char.ofNat 0xFE0F].all isAssigned = true := by
      decide
    have marked : "class=\"icon\">".toList.all isAssigned = true := by
      decide
    have closing : "</span>".toList.all isAssigned = true := by decide
    refine ⟨by simp [wide], fun assigned => ?_⟩
    simp only [List.all_append, opening, icon, marked, closing,
      all_takeWhile_drop assigned, Bool.and_self]
  · contradiction

theorem normalizeLegacyIconMarkup_of_unmarked
    (unmarked : replacementChar ∉ text) :
    normalizeLegacyIconMarkup text = text := by
  unfold normalizeLegacyIconMarkup
  rw [if_neg (by simpa using unmarked)]

theorem normalizeLegacyIconMarkup_assigned
    (assigned : text.all isAssigned = true) :
    (normalizeLegacyIconMarkup text).all isAssigned = true := by
  unfold normalizeLegacyIconMarkup
  split
  · exact all_substitute
      (fun found => (spanIconRule_new found).2)
      (all_substitute
        (fun found => (headingIconRule_new found).2)
        (all_substitute
          (fun found _ => (technologistRule_new found).2) assigned))
  · exact assigned

theorem normalizeLegacyIconMarkup_wide (marked : replacementChar ∈ text) :
    (normalizeLegacyIconMarkup text).all isNarrow = false := by
  have wide : text.all isNarrow = false := by
    rw [List.all_eq_false]
    exact ⟨_, marked, by decide⟩
  unfold normalizeLegacyIconMarkup
  rw [if_pos (by simpa using marked)]
  exact wide_substitute
    (fun found => (spanIconRule_new found).1)
    (wide_substitute
      (fun found => (headingIconRule_new found).1)
      (wide_substitute
        (fun found => (technologistRule_new found).1) wide))

theorem isNarrow_isAssigned_of_isAscii {char : Char}
    (ascii : isAscii char = true) :
    isNarrow char = true ∧ isAssigned char = true := by
  simp only [isAscii, isNarrow, isAssigned, isNoncharacter,
    decide_eq_true_eq, Bool.not_eq_true', Bool.or_eq_false_iff,
    decide_eq_false_iff_not] at ascii ⊢
  omega

theorem readSavedInstruction_utf8Bytes (decodeReplacing : Bytes → Text)
    (assigned : text.any isNoncharacter = false)
    (truthy : isTrue text = true) :
    readSavedInstruction decodeReplacing (utf8Bytes text) =
      normalizeLegacyIconMarkup text := by
  simp only [readSavedInstruction, decodeStrict?_utf8Bytes assigned,
    truthy, if_true]

theorem readSavedInstruction_ascii (decodeReplacing : Bytes → Text)
    (ascii : text.all isAscii = true) (truthy : isTrue text = true) :
    readSavedInstruction decodeReplacing (printRaw text) = text := by
  have assigned : text.any isNoncharacter = false := by
    rw [any_isNoncharacter_eq_false_iff, List.all_eq_true]
    rw [List.all_eq_true] at ascii
    exact fun char member =>
      (isNarrow_isAssigned_of_isAscii (ascii char member)).2
  have unmarked : replacementChar ∉ text := by
    intro marked
    have := List.all_eq_true.mp ascii _ marked
    exact absurd this (by decide)
  have printed : printRaw text = utf8Bytes text := by
    unfold printRaw
    rw [narrowBytes?_of_ascii ascii, Option.getD_some]
  rw [printed,
    readSavedInstruction_utf8Bytes decodeReplacing assigned truthy,
    normalizeLegacyIconMarkup_of_unmarked unmarked]

variable {decodeReplacing : Bytes → Text}

/-- Narrow text beyond ASCII never comes back. -/
theorem readSavedInstruction_narrow
    (replaces : MarksMalformed decodeReplacing)
    (narrow : text.all isNarrow = true) (beyond : text.all isAscii = false) :
    readSavedInstruction decodeReplacing (printRaw text) ≠ text := by
  have wideNe : ∀ {other : Text},
      other.all isNarrow = false → other ≠ text := by
    rintro other wide rfl
    rw [narrow] at wide
    contradiction
  have printed :
      printRaw text = text.map fun char => UInt8.ofNat char.toNat := by
    unfold printRaw narrowBytes?
    rw [if_pos narrow, Option.getD_some]
  unfold readSavedInstruction
  cases decoded : decodeStrict? (printRaw text) with
  | none =>
    exact wideNe
      (normalizeLegacyIconMarkup_wide (replaces.marks _ decoded))
  | some other =>
    dsimp only
    by_cases marked : replacementChar ∈ other
    · split
      · exact wideNe (normalizeLegacyIconMarkup_wide marked)
      · rintro rfl
        contradiction
    · have sameBytes := (utf8Bytes_of_decodeStrict? decoded).1
      have sameLength : (utf8Bytes other).length = text.length := by
        rw [sameBytes, printed, List.length_map]
      have longer := length_lt_length_utf8Bytes beyond
      split
      · rw [normalizeLegacyIconMarkup_of_unmarked marked]
        rintro rfl
        omega
      · rintro rfl
        contradiction

theorem readSavedInstruction_wide_iff
    (replaces : MarksMalformed decodeReplacing)
    (wide : text.all isNarrow = false) :
    readSavedInstruction decodeReplacing (printRaw text) = text ↔
      text.any isNoncharacter = false ∧
        normalizeLegacyIconMarkup text = text := by
  have printed : printRaw text = utf8Bytes text := by
    unfold printRaw narrowBytes?
    rw [wide]
    rfl
  have truthy : isTrue text = true := by
    unfold Perl.isTrue
    rw [decide_eq_true_eq]
    constructor <;> rintro rfl <;> contradiction
  rw [printed]
  cases assigned : text.any isNoncharacter with
  | false =>
    rw [readSavedInstruction_utf8Bytes decodeReplacing assigned truthy]
    simp
  | true =>
    refine ⟨fun same => ?_, fun kept => by cases kept.1⟩
    have refused := decodeStrict?_utf8Bytes_refused assigned
    have cleaned :=
      normalizeLegacyIconMarkup_assigned
        ((any_isNoncharacter_eq_false_iff _).mp
          (replaces.assigned _ refused))
    rw [readSavedInstruction, refused] at same
    rw [same, ← any_isNoncharacter_eq_false_iff, assigned] at cleaned
    contradiction

theorem textKept_iff (replaces : MarksMalformed decodeReplacing)
    (truthy : isTrue text = true) :
    readSavedInstruction decodeReplacing (printRaw text) = text ↔
      TextKept text := by
  unfold TextKept
  cases ascii : text.all isAscii with
  | true =>
    simp [readSavedInstruction_ascii decodeReplacing ascii truthy]
  | false =>
    cases narrow : text.all isNarrow with
    | true =>
      simp [readSavedInstruction_narrow replaces narrow ascii]
    | false =>
      simp [readSavedInstruction_wide_iff replaces narrow]

end DeveloperDashboard.Page
