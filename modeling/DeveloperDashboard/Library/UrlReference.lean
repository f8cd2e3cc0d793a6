import Mathlib.Data.List.DropRight

namespace Library

/-!
# URL references

Where a browser goes with a reference, by the parser of the URL standard: the
host of the page that it stands on, or a host of its own.  The parser trims
controls and blanks, leaves out tabs and ends of lines, and reads a backslash
as a slash.  The host is given as it is written, before the host parser.
-/

variable {char : Char}

namespace UrlReference

def isTrimmed (char : Char) : Bool :=
  decide (char.toNat ≤ 0x20)

def isLeftOut (char : Char) : Bool :=
  decide (char = '\t' ∨ char = '\n' ∨ char = '\r')

def cleaned (input : List Char) : List Char :=
  ((input.dropWhile isTrimmed).rdropWhile isTrimmed).filter
    fun char => !isLeftOut char

inductive Destination where
  | own
  | host (written : List Char)
  | other
deriving DecidableEq

def isSlash (char : Char) : Bool :=
  decide (char = '/' ∨ char = '\\')

def endsAuthority (char : Char) : Bool :=
  isSlash char || decide (char = '?' ∨ char = '#')

/-- The host state: up to a colon outside brackets, and what is behind. -/
def scanHost : Bool → List Char → List Char × List Char
  | _, [] => ([], [])
  | inside, char :: rest =>
    if char = ':' ∧ inside = false then ([], char :: rest)
    else
      let scanned :=
        scanHost
          (if char = '[' then true
            else if char = ']' then false
            else inside)
          rest
      (char :: scanned.1, scanned.2)

/-- The authority state; credentials end at the last `@`. -/
def authority (text : List Char) : Destination :=
  let written := text.takeWhile fun char => !endsAuthority char
  let scanned := scanHost false (written.rtakeWhile (· ≠ '@'))
  if scanned.1 ≠ [] ∧ scanned.2.tail.all Char.isDigit then
    .host scanned.1
  else .other

/-- The relative state, for a page with a special scheme. -/
def relative : List Char → Destination
  | first :: second :: rest =>
    if isSlash first && isSlash second then
      authority (rest.dropWhile isSlash)
    else .own
  | _ => .own

/-- The special schemes other than `file`. -/
def specialSchemes : List (List Char) :=
  ["http".toList, "https".toList, "ws".toList, "wss".toList, "ftp".toList]

/-- What a scheme is made of, behind its first letter. -/
def isSchemeChar (char : Char) : Bool :=
  char.isAlphanum || decide (char = '+' ∨ char = '-' ∨ char = '.')

def splitScheme (text : List Char) :
    Option (List Char × List Char) :=
  let scheme := text.takeWhile isSchemeChar
  let behind := text.dropWhile isSchemeChar
  if (scheme.head?.any Char.isAlpha) ∧ behind.head? = some ':' then
    some (scheme.map Char.toLower, behind.tail)
  else none

/-- Where a reference on a page with the given special scheme leads. -/
def destination (pageScheme input : List Char) : Destination :=
  let text := cleaned input
  match splitScheme text with
  | none => relative text
  | some (scheme, behind) =>
    if !specialSchemes.any fun special => decide (special = scheme) then
      .other
    else if scheme = pageScheme ∧ ¬"//".toList.isPrefixOf behind then
      relative behind
    else authority (behind.dropWhile isSlash)

theorem isTrimmed_of_isLeftOut
    (leftOut : isLeftOut char = true) : isTrimmed char = true := by
  unfold isLeftOut at leftOut
  rcases of_decide_eq_true leftOut with rfl | rfl | rfl
  · decide
  · decide
  · decide

theorem rdropWhile_append_cons
    {drops : Char → Bool} (keeps : drops char = false)
    (front rest : List Char) :
    (front ++ char :: rest).rdropWhile drops =
      front ++ char :: rest.rdropWhile drops := by
  induction rest using List.reverseRecOn with
  | nil =>
    rw [List.rdropWhile_nil]
    exact List.rdropWhile_concat_neg _ _ _ (by simp [keeps])
  | append_singleton rest last ih =>
    rw [← List.cons_append, ← List.append_assoc]
    by_cases dropsLast : drops last = true
    · rw [List.rdropWhile_concat_pos _ _ _ dropsLast,
        List.rdropWhile_concat_pos _ _ _ dropsLast, ih]
    · rw [List.rdropWhile_concat_neg _ _ _ dropsLast,
        List.rdropWhile_concat_neg _ _ _ dropsLast]
      simp

theorem cleaned_append_cons {front rest : List Char}
    (starts : (front ++ '/' :: rest).head?.any isTrimmed = false)
    (whole : ∀ char ∈ front ++ '/' :: rest, isLeftOut char = false) :
    cleaned (front ++ '/' :: rest) =
      front ++ '/' :: rest.rdropWhile isTrimmed := by
  have kept :
      (front ++ '/' :: rest).dropWhile isTrimmed = front ++ '/' :: rest := by
    cases front with
    | nil => exact List.dropWhile_cons_of_neg (by decide)
    | cons first front =>
      exact List.dropWhile_cons_of_neg (Bool.eq_false_iff.mp starts)
  unfold cleaned
  rw [kept, rdropWhile_append_cons (by decide), List.filter_eq_self]
  intro char isIn
  rw [Bool.not_eq_true']
  refine whole char ?_
  rcases List.mem_append.mp isIn with inFront | inRest
  · exact List.mem_append_left _ inFront
  · refine List.mem_append_right _ ?_
    rcases List.mem_cons.mp inRest with rfl | later
    · exact List.mem_cons_self
    · exact List.mem_cons_of_mem _
        ((List.rdropWhile_prefix isTrimmed rest).subset later)

theorem destination_of_path {pageScheme rest : List Char}
    (single : rest.head?.any isSlash = false)
    (whole : ∀ char ∈ '/' :: rest, isLeftOut char = false) :
    destination pageScheme ('/' :: rest) = .own := by
  have clean : cleaned ('/' :: rest) = '/' :: rest.rdropWhile isTrimmed :=
    @cleaned_append_cons [] rest rfl whole
  have noScheme :
      splitScheme ('/' :: rest.rdropWhile isTrimmed) = none := rfl
  unfold destination
  dsimp only
  rw [clean, noScheme]
  change relative ('/' :: rest.rdropWhile isTrimmed) = .own
  cases left : rest.rdropWhile isTrimmed with
  | nil => rfl
  | cons second behind =>
    have isSecond : rest.head? = some second := by
      obtain ⟨dropped, same⟩ := List.rdropWhile_prefix isTrimmed rest
      rw [left] at same
      rw [← same]
      rfl
    rw [isSecond] at single
    have single : isSlash second = false := single
    change (if (isSlash '/' && isSlash second) = true then _ else _) = _
    rw [single, Bool.and_false]
    rfl

def IsPort (port : List Char) : Prop :=
  port = [] ∨ ∃ digits, port = ':' :: digits ∧ digits.all Char.isDigit

/-- An authority: a host, in brackets or without, and perhaps a port. -/
structure IsAuthority (host port : List Char) : Prop where
  nonempty : host ≠ []
  plain :
    ∀ char ∈ host, endsAuthority char = false ∧ char ≠ '@' ∧
      isTrimmed char = false
  scanned : scanHost false (host ++ port) = (host, port)
  port : IsPort port

theorem scanHost_of_plain {inside : Bool} {host port : List Char}
    (plain :
      ∀ char ∈ host, (char ≠ ':' ∨ inside = true) ∧ char ≠ '[' ∧
        char ≠ ']') :
    scanHost inside (host ++ port) =
      (host ++ (scanHost inside port).1, (scanHost inside port).2) := by
  induction host with
  | nil => rfl
  | cons char host ih =>
    obtain ⟨⟨noColon, noOpen, noClose⟩, later⟩ :=
      List.forall_mem_cons.mp plain
    have stays : ¬(char = ':' ∧ inside = false) := by
      rintro ⟨rfl, outside⟩
      rcases noColon with different | isInside
      · exact different rfl
      · exact Bool.false_ne_true (outside.symm.trans isInside)
    rw [List.cons_append, scanHost, if_neg stays, if_neg noOpen,
      if_neg noClose, ih later]
    rfl

theorem scanHost_port {port : List Char} (isPort : IsPort port) :
    scanHost false port = ([], port) := by
  rcases isPort with rfl | ⟨digits, rfl, -⟩
  · rfl
  · rw [scanHost, if_pos ⟨rfl, rfl⟩]

theorem isAuthority_of_plain {host port : List Char} (nonempty : host ≠ [])
    (plain :
      ∀ char ∈ host, endsAuthority char = false ∧ char ≠ '@' ∧
        isTrimmed char = false ∧ char ≠ ':' ∧ char ≠ '[' ∧ char ≠ ']')
    (isPort : IsPort port) :
    IsAuthority host port where
  nonempty := nonempty
  plain := by
    intro char isIn
    obtain ⟨noMark, noAt, visible, -⟩ := plain char isIn
    exact ⟨noMark, noAt, visible⟩
  scanned := by
    have scanned := @scanHost_of_plain false host port ?_
    · rw [scanned, scanHost_port isPort, List.append_nil]
    · intro char isIn
      obtain ⟨-, -, -, noColon, noBrackets⟩ := plain char isIn
      exact ⟨Or.inl noColon, noBrackets⟩
  port := isPort

theorem isAuthority_of_brackets {address port : List Char}
    (plain :
      ∀ char ∈ address, endsAuthority char = false ∧ char ≠ '@' ∧
        isTrimmed char = false ∧ char ≠ '[' ∧ char ≠ ']')
    (isPort : IsPort port) :
    IsAuthority ('[' :: address ++ [']']) port where
  nonempty := List.cons_ne_nil _ _
  plain := by
    intro char isIn
    rcases List.mem_cons.mp isIn with rfl | later
    · exact ⟨by decide, by decide, by decide⟩
    · rcases List.mem_append.mp later with inAddress | last
      · have facts := plain char inAddress
        exact ⟨facts.1, facts.2.1, facts.2.2.1⟩
      · obtain rfl := List.mem_singleton.mp last
        exact ⟨by decide, by decide, by decide⟩
  scanned := by
    have behind :
        scanHost true (']' :: port) =
          (']' :: (scanHost false port).1, (scanHost false port).2) := rfl
    have opened (text : List Char) :
        scanHost false ('[' :: text) =
          ('[' :: (scanHost true text).1, (scanHost true text).2) := rfl
    have scanned := @scanHost_of_plain true address (']' :: port) ?_
    · rw [List.cons_append, List.cons_append, List.append_assoc, opened,
        List.singleton_append, scanned, behind, scanHost_port isPort]
    · intro char isIn
      obtain ⟨-, -, -, noBrackets⟩ := plain char isIn
      exact ⟨Or.inr rfl, noBrackets⟩
  port := isPort

theorem of_endsAuthority (ends : endsAuthority char = true) :
    char = '/' ∨ char = '\\' ∨ char = '?' ∨ char = '#' := by
  unfold endsAuthority isSlash at ends
  rw [Bool.or_eq_true, decide_eq_true_eq, decide_eq_true_eq] at ends
  rcases ends with (slash | backslash) | (question | hash)
  · exact Or.inl slash
  · exact Or.inr (Or.inl backslash)
  · exact Or.inr (Or.inr (Or.inl question))
  · exact Or.inr (Or.inr (Or.inr hash))

theorem plain_of_isDigit (digit : char.isDigit = true) :
    endsAuthority char = false ∧ char ≠ '@' ∧ isTrimmed char = false := by
  refine ⟨?_, ?_, ?_⟩
  · rw [Bool.eq_false_iff]
    intro ends
    rcases of_endsAuthority ends with rfl | rfl | rfl | rfl
    · exact absurd digit (by decide)
    · exact absurd digit (by decide)
    · exact absurd digit (by decide)
    · exact absurd digit (by decide)
  · rintro rfl
    exact absurd digit (by decide)
  · have zero : 48 ≤ char.toNat := (Char.isDigit_iff_toNat.mp digit).1
    unfold isTrimmed
    rw [decide_eq_false_iff_not]
    omega

namespace IsAuthority

variable {host port : List Char}

theorem plain_append (isAuthority : IsAuthority host port) :
    ∀ char ∈ host ++ port, endsAuthority char = false ∧ char ≠ '@' ∧
      isTrimmed char = false := by
  intro char isIn
  rcases List.mem_append.mp isIn with inHost | inPort
  · exact isAuthority.plain char inHost
  · rcases isAuthority.port with rfl | ⟨digits, rfl, areDigits⟩
    · cases inPort
    · rcases List.mem_cons.mp inPort with rfl | isDigit
      · exact ⟨by decide, by decide, by decide⟩
      · exact plain_of_isDigit (List.all_eq_true.mp areDigits char isDigit)

theorem authority_append (isAuthority : IsAuthority host port)
    (rest : List Char) :
    authority ((host ++ port) ++ '/' :: rest) = .host host := by
  have plain := isAuthority.plain_append
  have written :
      ((host ++ port) ++ '/' :: rest).takeWhile
        (fun char => !endsAuthority char) = host ++ port := by
    rw [List.takeWhile_append_of_pos (by simpa using fun char isIn =>
        (plain char isIn).1),
      List.takeWhile_cons_of_neg (by decide), List.append_nil]
  have noCredentials :
      (host ++ port).rtakeWhile (fun char => decide (char ≠ '@')) =
        host ++ port := by
    rw [List.rtakeWhile_eq_self_iff]
    intro char isIn
    exact decide_eq_true (plain char isIn).2.1
  have isPort : port.tail.all Char.isDigit = true := by
    rcases isAuthority.port with rfl | ⟨digits, rfl, areDigits⟩
    · rfl
    · exact areDigits
  unfold authority
  dsimp only
  rw [written, noCredentials, isAuthority.scanned]
  exact if_pos ⟨isAuthority.nonempty, isPort⟩

end IsAuthority

/-- An absolute reference with a special scheme leads to its host. -/
theorem destination_of_authority {pageScheme host port rest : List Char}
    (isAuthority : IsAuthority host port)
    (whole : ∀ char ∈ rest, isLeftOut char = false) :
    destination pageScheme
        ("https://".toList ++ (host ++ port) ++ '/' :: rest) =
      .host host := by
  have plain := isAuthority.plain_append
  have clean :
      cleaned ("https://".toList ++ (host ++ port) ++ '/' :: rest) =
        "https://".toList ++ (host ++ port) ++
          '/' :: rest.rdropWhile isTrimmed := by
    refine cleaned_append_cons rfl ?_
    intro char isIn
    rcases List.mem_append.mp isIn with inFront | inRest
    · rcases List.mem_append.mp inFront with inScheme | inAuthority
      · have kept :
            "https://".toList.all (fun char => !isLeftOut char) = true := rfl
        simpa using List.all_eq_true.mp kept char inScheme
      · rw [Bool.eq_false_iff]
        intro leftOut
        have visible := (plain char inAuthority).2.2
        rw [isTrimmed_of_isLeftOut leftOut] at visible
        cases visible
    · rcases List.mem_cons.mp inRest with rfl | later
      · decide
      · exact whole char later
  have special :
      splitScheme
          ("https://".toList ++ (host ++ port) ++
            '/' :: rest.rdropWhile isTrimmed) =
        some ("https".toList, "//".toList ++ ((host ++ port) ++
            '/' :: rest.rdropWhile isTrimmed)) := rfl
  have slashes :
      ("//".toList.isPrefixOf
        ("//".toList ++ ((host ++ port) ++
          '/' :: rest.rdropWhile isTrimmed))) = true := rfl
  have behind :
      ("//".toList ++ ((host ++ port) ++
        '/' :: rest.rdropWhile isTrimmed)).dropWhile isSlash =
          (host ++ port) ++ '/' :: rest.rdropWhile isTrimmed := by
    obtain ⟨first, others, same⟩ :=
      List.exists_cons_of_ne_nil isAuthority.nonempty
    have notSlash : isSlash first = false := by
      have noMark := (plain first (by simp [same])).1
      exact (Bool.or_eq_false_iff.mp noMark).1
    rw [same]
    change (first :: _).dropWhile isSlash = _
    exact List.dropWhile_cons_of_neg (Bool.eq_false_iff.mp notSlash)
  unfold destination
  dsimp only
  rw [clean, special]
  dsimp only
  rw [slashes, if_neg (by decide), if_neg (fun both => both.2 rfl), behind]
  exact isAuthority.authority_append _

end UrlReference

end Library
