import DeveloperDashboard.Page.PageDocument

namespace DeveloperDashboard.Page

open Library Perl

/-!
# Migrating legacy JSON pages

`migrate_legacy_json_pages` goes through the dashboards root once.  Each JSON
page is written as instruction text to the file that its own id names, and then
the JSON file is removed.
-/

/-- The class `[A-Za-z0-9_-]`. -/
def isIdStart (char : Char) : Bool :=
  char.isAlphanum || char = '_' || char = '-'

/-- The class `[A-Za-z0-9_.-]`. -/
def isIdChar (char : Char) : Bool :=
  isIdStart char || char = '.'

/-- The pattern `m{\A[A-Za-z0-9_-][A-Za-z0-9_.-]*\z}`. -/
def isFlatId (id : Text) : Bool :=
  (id.head?.any isIdStart) && id.all isIdChar

/-- A canonical `nav/*.tt` id without two dots in a row. -/
def isFlatNavId (id : Text) : Bool :=
  let name := (id.drop 4).take (id.length - 7)
  "nav/".toList.isPrefixOf id && ".tt".toList.isSuffixOf (id.drop 5) &&
    isFlatId name &&
    !id.tails.any fun rest => "..".toList.isPrefixOf rest

theorem isIdChar_bounds {char : Char} (isId : isIdChar char = true) :
    isSpace char = false ∧ char ≠ '/' := by
  have notSlash : char ≠ '/' := by
    rintro rfl
    exact absurd isId (by decide)
  have within : 45 ≤ char.toNat ∧ char.toNat ≤ 122 := by
    unfold isIdChar isIdStart at isId
    simp only [Bool.or_eq_true, decide_eq_true_eq] at isId
    rcases isId with ((alphanumeric | rfl) | rfl) | rfl
    · have bounds := toNat_of_isAlphanum alphanumeric
      omega
    · decide
    · decide
    · decide
  refine ⟨?_, notSlash⟩
  unfold isSpace
  simp only [Bool.or_eq_false_iff, decide_eq_false_iff_not]
  omega

theorem exists_of_isFlatNavId {id : Text} (flat : isFlatNavId id = true) :
    ∃ name,
      id = 'n' :: 'a' :: 'v' :: '/' :: (name ++ ".tt".toList) ∧
        (name.head?.any isIdStart) = true ∧ name.all isIdChar = true := by
  unfold isFlatNavId at flat
  simp only [Bool.and_eq_true, List.isPrefixOf_iff_prefix,
    List.isSuffixOf_iff_suffix] at flat
  obtain ⟨⟨⟨⟨rest, rfl⟩, ends⟩, nameFlat⟩, -⟩ := flat
  have nav : "nav/".toList = ['n', 'a', 'v', '/'] := rfl
  rw [nav] at ends nameFlat ⊢
  simp only [List.cons_append, List.nil_append, List.drop_succ_cons,
    List.drop_zero, List.length_cons] at ends nameFlat ⊢
  obtain ⟨name, rfl⟩ : ".tt".toList <:+ rest :=
    ends.trans (List.drop_suffix 1 rest)
  have nameIs :
      (name ++ ".tt".toList).take
        ((name ++ ".tt".toList).length + 1 + 1 + 1 + 1 - 7) = name := by
    rw [List.length_append]
    have three : ".tt".toList.length = 3 := rfl
    rw [three, show name.length + 3 + 1 + 1 + 1 + 1 - 7 = name.length by
      omega]
    exact List.take_left' rfl
  rw [nameIs] at nameFlat
  unfold isFlatId at nameFlat
  rw [Bool.and_eq_true] at nameFlat
  exact ⟨name, rfl, nameFlat⟩

/-- `_normalized_page_id`. -/
def normalizedPageId (id : Text) : Text :=
  let trimmed := trim id
  let relative := trimmed.dropWhile (· = '/')
  let stripped :=
    if relative ≠ trimmed && "app/".toList.isPrefixOf relative then
      (relative.drop 3).dropWhile (· = '/')
    else trimmed
  stripped.dropWhile (· = '/')

/-- `_validated_page_id`; an invalid id dies. -/
def validatedPageId (id : Text) : Option Text :=
  if isFlatNavId id || isFlatId id then some id
  else
    let normalized := normalizedPageId id
    let components :=
      normalized.splitOnP fun char => char = '\\' || char = '/'
    if normalized = [] then none
    else if (normalized.head?.any Char.isAlpha) &&
        (normalized.drop 1).head? == some ':' then none
    else if components.any fun component =>
        component = [] || component = ['.'] || component = ['.', '.'] then
      none
    else some normalized

/-- What a name in the dashboards root stands for. -/
inductive FileNode where
  | regular (content : Bytes)
  | directory
  | symlink
deriving DecidableEq

/-- The files under the dashboards root, by their relative names. -/
abbrev PageFiles :=
  Entries Text FileNode

/-- Which files the system lets the process read, write and remove. -/
structure FileAccess where
  reads : Text → Bool
  writes : Text → Bool
  unlinks : Text → Bool

structure MigratedPage where
  source : Text
  id : Text
  file : Text
deriving DecidableEq

/-- The files, the report, and whether the migration died. -/
structure MigrationState where
  files : PageFiles
  migrated : List MigratedPage
  died : Bool

/-- The pattern `/\.json\z/`. -/
def isJsonName (name : Text) : Bool :=
  ".json".toList.isSuffixOf name

/-- `basename($entry, '.json')`; a name that is only the suffix stays. -/
def jsonBasename (entry : Text) : Text :=
  if entry = ".json".toList then entry
  else entry.take (entry.length - 5)

structure MigrationPlan where
  page : PageDocument
  id : Text
  target : Text

section Migrating

variable
  (access : FileAccess)
  (fromJson : Bytes → Option PageDocument)

/-- Whether the loop passes over an entry because of its name or kind. -/
def isPassedOver (files : PageFiles) (entry : Text) : Bool :=
  decide (entry = ['.'] ∨ entry = ['.', '.']) || !isJsonName entry ||
    match files.lookup entry with
    | some .directory => true
    | some .symlink => true
    | _ => false

/-- What `_open_saved_page_for_read` and the read give for an entry. -/
def entryBytes (files : PageFiles) (entry : Text) : Option Bytes :=
  (validatedPageId entry).bind fun name =>
    if access.reads name then
      match files.lookup name with
      | some (.regular raw) => some raw
      | _ => none
    else none

/-- The id of a JSON page: its own one, or the name of its file. -/
def jsonPageId (entry : Text) (page : PageDocument) : Text :=
  let id := page.id.getD []
  if Perl.isTrue id then id else jsonBasename entry

/-- The page that an entry is migrated to, unless the entry is passed over. -/
def migrationPlan? (files : PageFiles) (entry : Text) :
    Option MigrationPlan :=
  if isPassedOver files entry then none
  else
    (entryBytes access files entry).bind fun raw =>
      (fromJson raw).bind fun page =>
        (validatedPageId (jsonPageId entry page)).map fun target =>
          { page := { page with id := some (jsonPageId entry page) }
            id := jsonPageId entry page
            target := target }

def opensForWrite (files : PageFiles) (name : Text) : Bool :=
  access.writes name &&
    match files.lookup name with
    | some .directory => false
    | some .symlink => false
    | _ => true

/-- One round of the loop of `migrate_legacy_json_pages`. -/
def migrateEntry (state : MigrationState) (entry : Text) :
    MigrationState :=
  if state.died then state
  else
    match migrationPlan? access fromJson state.files entry with
    | none => state
    | some plan =>
      if opensForWrite access state.files plan.target = false then
        { state with died := true }
      else
        let written :=
          state.files.store plan.target
            (.regular (printRaw (canonicalInstruction plan.page)))
        if access.unlinks entry = false then
          { state with files := written, died := true }
        else
          { files := written.remove entry
            migrated :=
              state.migrated ++
                [{ source := entry, id := plan.id, file := plan.target }]
            died := false }

/-- `migrate_legacy_json_pages`, over the entries that `readdir` returns. -/
def migrateLegacyJsonPages (files : PageFiles) (entries : List Text) :
    MigrationState :=
  entries.foldl (migrateEntry access fromJson)
    { files := files, migrated := [], died := false }

/--
No page is lost: the pages that are not JSON are unchanged, a JSON page is
still there or reported, what is reported is stored under its id, and no two
pages are stored in one file.
-/
structure PagesKept
    (files : PageFiles) (state : MigrationState) : Prop where
  plain :
    ∀ {name content},
      isJsonName name = false →
      files.lookup name = some (.regular content) →
      state.files.lookup name = some (.regular content)
  json :
    ∀ {name content page},
      isJsonName name = true →
      files.lookup name = some (.regular content) →
      fromJson content = some page →
      state.files.lookup name = some (.regular content) ∨
        ∃ record ∈ state.migrated, record.source = name
  stored :
    ∀ {record}, record ∈ state.migrated →
      ∃ content page,
        files.lookup record.source = some (.regular content) ∧
          fromJson content = some page ∧
          validatedPageId record.id = some record.file ∧
          state.files.lookup record.file =
            some (.regular (printRaw (canonicalInstruction
              { page with id := some record.id })))
  apart :
    state.migrated.Pairwise fun first second =>
      first.file ≠ second.file

/--
An entry is passed over, or it is the file that is read for it, and nothing
stands yet under the name that its page goes to.
-/
def entryMeets (state : MigrationState) (entry : Text) : Bool :=
  state.died ||
    match migrationPlan? access fromJson state.files entry with
    | none => true
    | some plan =>
      (state.files.lookup plan.target).isNone &&
        decide (validatedPageId entry = some entry)

def entriesMeet : MigrationState → List Text → Bool
  | _, [] => true
  | state, entry :: rest =>
    entryMeets access fromJson state entry &&
      entriesMeet (migrateEntry access fromJson state entry) rest

/-- What also holds after every round. -/
structure MigrationInvariant
    (files : PageFiles) (state : MigrationState) : Prop where
  kept : PagesKept fromJson files state
  origin :
    ∀ {name content},
      state.files.lookup name = some (.regular content) →
      files.lookup name = some (.regular content) ∨
        ∃ page, content = printRaw (canonicalInstruction page)

end Migrating

variable
  {access : FileAccess}
  {fromJson : Bytes → Option PageDocument}

variable {files : PageFiles} {entry : Text}

theorem entryBytes_cases {raw : Bytes}
    (read : entryBytes access files entry = some raw) :
    ∃ name,
      validatedPageId entry = some name ∧
        files.lookup name = some (.regular raw) := by
  obtain ⟨name, valid, found⟩ := Option.bind_eq_some_iff.mp read
  refine ⟨name, valid, ?_⟩
  split at found
  · split at found
    · rename_i content content'
      obtain rfl := Option.some.inj found
      exact content'
    · contradiction
  · contradiction

theorem migrationPlan?_cases {plan : MigrationPlan}
    (planned : migrationPlan? access fromJson files entry = some plan) :
    isJsonName entry = true ∧
      ∃ name raw page,
        validatedPageId entry = some name ∧
          files.lookup name = some (.regular raw) ∧
          fromJson raw = some page ∧
          validatedPageId plan.id = some plan.target ∧
          plan.page = { page with id := some plan.id } := by
  unfold migrationPlan? at planned
  split at planned
  · contradiction
  · rename_i considered
    have named : isJsonName entry = true := by
      unfold isPassedOver at considered
      simp only [Bool.or_eq_true, not_or, Bool.not_eq_true'] at considered
      simpa using considered.1.2
    obtain ⟨raw, read, parsed⟩ := Option.bind_eq_some_iff.mp planned
    obtain ⟨page, json, valid⟩ := Option.bind_eq_some_iff.mp parsed
    obtain ⟨target, targetId, rfl⟩ := Option.map_eq_some_iff.mp valid
    obtain ⟨name, validName, found⟩ := entryBytes_cases read
    exact
      ⟨named, name, raw, page, validName, found, json, targetId, rfl⟩

theorem migrationInvariant_initial (files : PageFiles) :
    MigrationInvariant fromJson files
      { files := files, migrated := [], died := false } where
  kept :=
    { plain := fun _ found => found
      json := fun _ found _ => Or.inl found
      stored := fun member => absurd member List.not_mem_nil
      apart := List.Pairwise.nil }
  origin := Or.inl

variable {state : MigrationState}

/-- Writing a page under a new name loses nothing. -/
theorem migrationInvariant_write
    (holds : MigrationInvariant fromJson files state) {target : Text}
    (absent : state.files.lookup target = none)
    (page : PageDocument) (died : Bool) :
    MigrationInvariant fromJson files
      { files :=
          state.files.store target
            (.regular (printRaw (canonicalInstruction page)))
        migrated := state.migrated
        died := died } := by
  have other : ∀ {name node},
      state.files.lookup name = some node →
      (state.files.store target
        (.regular (printRaw (canonicalInstruction page)))).lookup name =
          some node := by
    intro name node found
    have different : target ≠ name := by
      rintro rfl
      rw [absent] at found
      contradiction
    rw [Entries.lookup_store_of_ne _ different]
    exact found
  refine ⟨⟨?_, ?_, ?_, holds.kept.apart⟩, ?_⟩
  · intro name content plain found
    exact other (holds.kept.plain plain found)
  · intro name content parsed json found isPage
    rcases holds.kept.json json found isPage with there | reported
    · exact Or.inl (other there)
    · exact Or.inr reported
  · intro record member
    obtain ⟨content, parsed, source, isPage, valid, stored⟩ :=
      holds.kept.stored member
    exact ⟨content, parsed, source, isPage, valid, other stored⟩
  · intro name content found
    by_cases same : target = name
    · subst same
      rw [Entries.lookup_store_self] at found
      exact Or.inr ⟨page, by simpa using found.symm⟩
    · rw [Entries.lookup_store_of_ne _ same] at found
      exact holds.origin found

section

variable (notJson : ∀ page, fromJson (printRaw (canonicalInstruction
  page)) = none)

include notJson

section

variable (holds : MigrationInvariant fromJson files state)

include holds

/-- Removing a JSON file whose page is stored elsewhere loses nothing. -/
theorem migrationInvariant_unlink (record : MigratedPage)
    {raw : Bytes} {page : PageDocument}
    (json : isJsonName record.source = true)
    (source : state.files.lookup record.source = some (.regular raw))
    (parsed : fromJson raw = some page)
    (valid : validatedPageId record.id = some record.file)
    (stored :
      state.files.lookup record.file =
        some (.regular (printRaw (canonicalInstruction
          { page with id := some record.id }))))
    (fresh : ∀ earlier ∈ state.migrated, earlier.file ≠ record.file) :
    MigrationInvariant fromJson files
      { files := state.files.remove record.source
        migrated := state.migrated ++ [record]
        died := false } := by
  have other : ∀ {name node},
      record.source ≠ name →
      state.files.lookup name = some node →
      (state.files.remove record.source).lookup name = some node := by
    intro name node different found
    rw [Entries.lookup_remove_of_ne _ different]
    exact found
  have written : ∀ {name other},
      state.files.lookup name =
          some (.regular (printRaw (canonicalInstruction other))) →
        record.source ≠ name := by
    rintro name other found rfl
    rw [source] at found
    obtain rfl : raw = _ := by simpa using found
    rw [notJson] at parsed
    contradiction
  have before : files.lookup record.source = some (.regular raw) := by
    rcases holds.origin source with there | ⟨other, rfl⟩
    · exact there
    · rw [notJson] at parsed
      contradiction
  refine ⟨⟨?_, ?_, ?_, ?_⟩, ?_⟩
  · intro name content plain found
    refine other ?_ (holds.kept.plain plain found)
    rintro rfl
    rw [json] at plain
    contradiction
  · intro name content parsed' isJson found isPage
    by_cases same : record.source = name
    · exact Or.inr ⟨record, by simp, same⟩
    · rcases holds.kept.json isJson found isPage with there | reported
      · exact Or.inl (other same there)
      · obtain ⟨earlier, member, from'⟩ := reported
        exact Or.inr ⟨earlier, by simp [member], from'⟩
  · intro latest member
    rcases List.mem_append.mp member with earlier | last
    · obtain ⟨content, parsed', source', isPage, valid', stored'⟩ :=
        holds.kept.stored earlier
      exact
        ⟨content, parsed', source', isPage, valid',
          other (written stored') stored'⟩
    · obtain rfl := List.mem_singleton.mp last
      exact
        ⟨raw, page, before, parsed, valid, other (written stored) stored⟩
  · rw [List.pairwise_append]
    refine ⟨holds.kept.apart, List.pairwise_singleton _ _, ?_⟩
    intro earlier member last same
    obtain rfl := List.mem_singleton.mp same
    exact fresh earlier member
  · intro name content found
    by_cases same : record.source = name
    · subst same
      rw [Entries.lookup_remove_self] at found
      contradiction
    · rw [Entries.lookup_remove_of_ne _ same] at found
      exact holds.origin found

/-- A round over an entry that meets the condition loses no page. -/
theorem migrationInvariant_step
    (meets : entryMeets access fromJson state entry = true) :
    MigrationInvariant fromJson files
      (migrateEntry access fromJson state entry) := by
  unfold migrateEntry
  unfold entryMeets at meets
  cases died : state.died with
  | true => exact holds
  | false =>
    rw [died, Bool.false_or] at meets
    cases planned :
        migrationPlan? access fromJson state.files entry with
    | none => exact holds
    | some plan =>
      obtain ⟨json, name, raw, page, valid, source, parsed, targetId,
        planPage⟩ := migrationPlan?_cases planned
      simp only [planned, Bool.and_eq_true, Option.isNone_iff_eq_none,
        decide_eq_true_eq] at meets
      obtain ⟨absent, ownName⟩ := meets
      obtain rfl : entry = name := by
        rw [ownName] at valid
        exact Option.some.inj valid
      have written :=
        migrationInvariant_write holds absent plan.page false
      have apart : plan.target ≠ entry := by
        rintro same
        rw [same, source] at absent
        contradiction
      simp only [Bool.false_eq_true, if_false]
      split
      · exact ⟨⟨holds.kept.plain, holds.kept.json, holds.kept.stored,
          holds.kept.apart⟩, holds.origin⟩
      · split
        · exact migrationInvariant_write holds absent plan.page true
        · refine
            migrationInvariant_unlink notJson written
              { source := entry, id := plan.id, file := plan.target }
              json ?_ parsed targetId ?_ ?_
          · rw [Entries.lookup_store_of_ne _ apart]
            exact source
          · rw [Entries.lookup_store_self, planPage]
          · intro earlier member same
            obtain ⟨_, _, _, _, _, stored⟩ := holds.kept.stored member
            rw [same, absent] at stored
            contradiction

theorem migrationInvariant_foldl {done rest : List Text}
    (meets : entriesMeet access fromJson state (done ++ rest) = true) :
    MigrationInvariant fromJson files
      (done.foldl (migrateEntry access fromJson) state) := by
  induction done generalizing state with
  | nil => exact holds
  | cons entry done ih =>
    simp only [List.cons_append, entriesMeet, Bool.and_eq_true] at meets
    exact ih
      (migrationInvariant_step notJson holds meets.1) meets.2

end

end

theorem head?_printRaw_canonicalInstruction (page : PageDocument) :
    (printRaw (canonicalInstruction page)).head? = some 84 := by
  obtain ⟨rest, text⟩ :
      ∃ rest, canonicalInstruction page = 'T' :: rest :=
    legacyInstruction_head page
  rw [text]
  unfold printRaw narrowBytes?
  split
  · rfl
  · rfl

/-- A system that lets the process do everything. -/
def openAccess : FileAccess :=
  { reads := fun _ => true
    writes := fun _ => true
    unlinks := fun _ => true }

def jsonWithId (id : String) : Bytes :=
  printRaw ("\x7b\"id\":\"".toList ++ id.toList ++ "\"\x7d".toList)

/-- What `from_json` makes of two such texts. -/
def readSampleJson (raw : Bytes) : Option PageDocument :=
  if raw = jsonWithId "foo.json" then
    some { titledPage "Untitled".toList with id := some "foo.json".toList }
  else if raw = jsonWithId "notes" then
    some { titledPage "Untitled".toList with id := some "notes".toList }
  else none

theorem readSampleJson_canonicalInstruction (page : PageDocument) :
    readSampleJson (printRaw (canonicalInstruction page)) = none := by
  have head := head?_printRaw_canonicalInstruction page
  unfold readSampleJson
  rw [if_neg, if_neg]
  · intro same
    rw [same] at head
    revert head
    decide +kernel
  · intro same
    rw [same] at head
    revert head
    decide +kernel

def sampleRoot (id : String) : PageFiles :=
  [("notes".toList, .regular (printRaw "TITLE: Notes\n".toList)),
    ("foo.json".toList, .regular (jsonWithId id))]

def sampleMigration (id : String) : MigrationState :=
  migrateLegacyJsonPages openAccess readSampleJson (sampleRoot id)
    ["notes".toList, "foo.json".toList]

end DeveloperDashboard.Page
