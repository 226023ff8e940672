import Mathlib.Algebra.GroupWithZero.Nat
import Mathlib.Data.List.Basic
import Mathlib.Tactic.Common

/-! # Universally unique identifiers and their text form

An identifier is written as thirty-two hexadecimal digits in groups of eight,
four, four, four and twelve, separated by dashes, with capital letters
(`Foundation.UUID.uuidString`). Reading accepts both cases
(`Foundation.UUID.ofString?`) and inverts writing
(`Foundation.UUID.ofString?_uuidString`), so distinct identifiers have distinct
texts.
-/

namespace Foundation

/-- A hexadecimal digit. -/
abbrev Nibble := Fin 16

/-- The capital form of a hexadecimal digit. -/
def Nibble.char (digit : Nibble) : Char :=
  if digit.val < 10 then Char.ofNat ('0'.toNat + digit.val)
  else Char.ofNat ('A'.toNat + (digit.val - 10))

/-- The value of a hexadecimal digit of either case. -/
def Nibble.ofChar? (char : Char) : Option Nibble :=
  if '0' ≤ char ∧ char ≤ '9' then some (Fin.ofNat 16 (char.toNat - '0'.toNat))
  else if 'A' ≤ char ∧ char ≤ 'F' then some (Fin.ofNat 16 (char.toNat - 'A'.toNat + 10))
  else if 'a' ≤ char ∧ char ≤ 'f' then some (Fin.ofNat 16 (char.toNat - 'a'.toNat + 10))
  else none

/-- A digit is read back from its character. -/
@[simp] theorem Nibble.ofChar?_char (digit : Nibble) : Nibble.ofChar? digit.char = some digit := by
  revert digit
  decide

/-- No digit is a dash. -/
theorem Nibble.char_ne_dash (digit : Nibble) : digit.char ≠ '-' := by
  revert digit
  decide

/-- No digit is a slash. -/
theorem Nibble.char_ne_slash (digit : Nibble) : digit.char ≠ '/' := by
  revert digit
  decide

/-- The values of a text of hexadecimal digits, if it is one. -/
def nibbles? : List Char → Option (List Nibble)
  | [] => some []
  | char :: rest => do
      let digit ← Nibble.ofChar? char
      let digits ← nibbles? rest
      return digit :: digits

/-- Digits are read back from their characters. -/
@[simp] theorem nibbles?_map_char (digits : List Nibble) :
    nibbles? (digits.map Nibble.char) = some digits := by
  induction digits with
  | nil => rfl
  | cons digit rest ih => simp [nibbles?, ih]

/-- The lengths of the groups of an identifier's text form. -/
def groupLengths : List Nat := [8, 4, 4, 4, 12]

/-- Cut a list into consecutive groups of the given lengths. -/
def cut {α : Type*} : List Nat → List α → List (List α)
  | [], _ => []
  | length :: lengths, items => items.take length :: cut lengths (items.drop length)

/-- Groups put together are the items that were cut. -/
theorem flatten_cut {α : Type*} (lengths : List Nat) (items : List α)
    (exact : items.length = lengths.sum) : (cut lengths items).flatten = items := by
  induction lengths generalizing items with
  | nil => rw [List.eq_nil_of_length_eq_zero exact]; rfl
  | cons length lengths ih =>
      rw [List.sum_cons] at exact
      rw [cut, List.flatten_cons, ih (items.drop length) (by rw [List.length_drop]; omega),
        List.take_append_drop]

/-- Groups have the lengths that were cut. -/
theorem map_length_cut {α : Type*} (lengths : List Nat) (items : List α)
    (exact : items.length = lengths.sum) : (cut lengths items).map List.length = lengths := by
  induction lengths generalizing items with
  | nil => rfl
  | cons length lengths ih =>
      rw [List.sum_cons] at exact
      rw [cut, List.map_cons, ih (items.drop length) (by rw [List.length_drop]; omega),
        List.length_take, Nat.min_eq_left (by omega)]

/-- What is in a group is among the items. -/
theorem mem_of_mem_cut {α : Type*} {lengths : List Nat} {items group : List α} {item : α}
    (member : group ∈ cut lengths items) (inside : item ∈ group) : item ∈ items := by
  induction lengths generalizing items with
  | nil => simp [cut] at member
  | cons length lengths ih =>
      rcases List.mem_cons.mp member with rfl | later
      · exact List.mem_of_mem_take inside
      · exact List.mem_of_mem_drop (ih later)

/-- What is in joined groups is in one of them, or separates them. -/
theorem mem_of_mem_intercalate {α : Type*} {separator item : α} {groups : List (List α)}
    (member : item ∈ [separator].intercalate groups) :
    item = separator ∨ ∃ group ∈ groups, item ∈ group := by
  induction groups with
  | nil => simp at member
  | cons group groups ih =>
      by_cases last : groups = []
      · subst last
        rw [List.intercalate_singleton] at member
        exact Or.inr ⟨group, List.mem_cons_self, member⟩
      · rw [List.intercalate_cons_of_ne_nil last, List.append_assoc, List.mem_append,
          List.mem_append, List.mem_singleton] at member
        rcases member with here | rfl | later
        · exact Or.inr ⟨group, List.mem_cons_self, here⟩
        · exact Or.inl rfl
        · exact (ih later).imp_right fun ⟨found, member, inside⟩ =>
            ⟨found, List.mem_cons_of_mem _ member, inside⟩

/-- A universally unique identifier: sixteen bytes, as thirty-two digits. -/
structure UUID where
  digits : List Nibble
  length_eq : digits.length = groupLengths.sum
deriving DecidableEq

instance : Inhabited UUID := ⟨⟨List.replicate 32 0, rfl⟩⟩

namespace UUID

/-- The identifier whose digits write a number. -/
def ofNat (number : Nat) : UUID where
  digits := (List.range 32).reverse.map fun place => Fin.ofNat 16 (number / 16 ^ place)
  length_eq := rfl

/-- The characters of the text form, without the dashes. -/
def chars (identifier : UUID) : List Char := identifier.digits.map Nibble.char

/-- An identifier has as many characters as its groups are long. -/
theorem length_chars (identifier : UUID) : identifier.chars.length = groupLengths.sum := by
  rw [chars, List.length_map, identifier.length_eq]

/-- The text form of an identifier. -/
def uuidString (identifier : UUID) : String :=
  String.ofList (['-'].intercalate (cut groupLengths identifier.chars))

/-- Read an identifier from its text form. -/
def ofString? (text : String) : Option UUID :=
  let groups := text.toList.splitOn '-'
  if groups.map List.length = groupLengths then
    match nibbles? groups.flatten with
    | some digits =>
        if exact : digits.length = groupLengths.sum then some ⟨digits, exact⟩ else none
    | none => none
  else none

/-- **Reading inverts writing.** -/
@[simp] theorem ofString?_uuidString (identifier : UUID) :
    ofString? identifier.uuidString = some identifier := by
  have split : (['-'].intercalate (cut groupLengths identifier.chars)).splitOn '-' =
      cut groupLengths identifier.chars := by
    apply List.splitOn_intercalate
    · intro group member dash
      have inside := mem_of_mem_cut member dash
      obtain ⟨digit, _, same⟩ := List.mem_map.mp inside
      exact digit.char_ne_dash same
    · simp [groupLengths, cut]
  simp only [ofString?, uuidString, String.toList_ofList, split,
    map_length_cut groupLengths _ identifier.length_chars,
    flatten_cut groupLengths _ identifier.length_chars, ↓reduceIte]
  simp only [chars, nibbles?_map_char, identifier.length_eq, ↓reduceDIte]

/-- Identifiers of one text are the same. -/
theorem uuidString_injective : Function.Injective uuidString := by
  intro first second same
  have read := congrArg ofString? same
  rw [ofString?_uuidString, ofString?_uuidString] at read
  exact Option.some.inj read

/-- The text of an identifier is not empty. -/
theorem uuidString_ne_empty (identifier : UUID) : identifier.uuidString.toList ≠ [] := by
  intro empty
  have read := ofString?_uuidString identifier
  rw [ofString?, empty] at read
  simp [groupLengths] at read

/-- The text form is a single path component. -/
theorem slash_not_mem_uuidString (identifier : UUID) : '/' ∉ identifier.uuidString.toList := by
  rw [uuidString, String.toList_ofList]
  intro member
  rcases mem_of_mem_intercalate member with dash | ⟨group, grouped, inside⟩
  · exact absurd dash (by decide)
  · obtain ⟨digit, _, same⟩ := List.mem_map.mp (mem_of_mem_cut grouped inside)
    exact digit.char_ne_slash same

end UUID

end Foundation
