import DeveloperDashboard.Library.Entries
import DeveloperDashboard.Perl.Text

namespace DeveloperDashboard.Config

open Library

/-!
# Decoded JSON

The values that `json_decode` returns.  A number is kept as the text Perl
gives it, which is all that the configuration code reads of it.
-/

/-- A decoded value; `hash` and `array` are the references to them. -/
inductive JsonValue where
  | null
  | boolean (value : Bool)
  | number (text : String)
  | string (text : String)
  | array (items : List JsonValue)
  | hash (entries : List (String × JsonValue))

abbrev ConfigHash := Entries String JsonValue

mutual

/-- How deep references are nested in a value. -/
def JsonValue.depth : JsonValue → Nat
  | .array items => itemsDepth items + 1
  | .hash entries => entriesDepth entries + 1
  | _ => 0

def itemsDepth : List JsonValue → Nat
  | [] => 0
  | item :: rest => max item.depth (itemsDepth rest)

def entriesDepth : List (String × JsonValue) → Nat
  | [] => 0
  | (_, value) :: rest => max value.depth (entriesDepth rest)

end

theorem itemsDepth_le_iff (items : List JsonValue) (bound : Nat) :
    itemsDepth items ≤ bound ↔ ∀ item ∈ items, item.depth ≤ bound := by
  induction items with
  | nil => simp [itemsDepth]
  | cons item rest ih =>
    rw [itemsDepth, Nat.max_le, ih, List.forall_mem_cons]

theorem entriesDepth_le_iff (entries : ConfigHash) (bound : Nat) :
    entriesDepth entries ≤ bound ↔
      ∀ entry ∈ entries, entry.2.depth ≤ bound := by
  induction entries with
  | nil => simp [entriesDepth]
  | cons entry rest ih =>
    rw [entriesDepth, Nat.max_le, ih, List.forall_mem_cons]

namespace JsonValue

def truthy : JsonValue → Bool
  | .null => false
  | .boolean value => value
  | .number text => decide (text ≠ "" ∧ text ≠ "0")
  | .string text => decide (text ≠ "" ∧ text ≠ "0")
  | _ => true

def plainText : JsonValue → Option String
  | .number text => some text
  | .string text => some text
  | _ => none

/--
The string of a value used as a hash key, when it is defined and not empty.
A reference gives its address, which no other item of a list has.
-/
def identityText : JsonValue → Option String
  | .boolean value => some (if value then "1" else "0")
  | .number text => if text = "" then none else some text
  | .string text => if text = "" then none else some text
  | _ => none

def identity (identityKey : String) : JsonValue → Option String
  | .hash entries =>
    (Entries.lookup entries identityKey).bind identityText
  | _ => none

def IsScalar : JsonValue → Prop
  | .array _ => False
  | .hash _ => False
  | _ => True

theorem eq_hash_of_identity
    {identityKey : String} {item : JsonValue} {identity : String}
    (identified : item.identity identityKey = some identity) :
    ∃ entries value,
      item = .hash entries ∧
        Entries.lookup entries identityKey = some value ∧
          value.identityText = some identity := by
  cases item with
  | hash entries =>
    obtain ⟨value, found, text⟩ :=
      Option.bind_eq_some_iff.mp identified
    exact ⟨entries, value, rfl, found, text⟩
  | _ => cases identified

theorem isScalar_of_identityText {value : JsonValue} {text : String}
    (identified : value.identityText = some text) :
    value.IsScalar := by
  cases value with
  | array items => cases identified
  | hash entries => cases identified
  | _ => trivial

end JsonValue

open Perl

/-!
# Texts of records

What Perl gives when a field of a decoded record is used as a string.
-/

/-- The string of a value; the address of a reference does not matter. -/
def scalarText : JsonValue → Option Text
  | .null => none
  | .boolean value => some (if value then ['1'] else ['0'])
  | .number text => some text.toList
  | .string text => some text.toList
  | .array _ => some "ARRAY(0x0)".toList
  | .hash _ => some "HASH(0x0)".toList

def recordText (record : ConfigHash) (key : String) : Option Text :=
  (record.lookup key).bind scalarText

end DeveloperDashboard.Config
