/-
# Writing JSON

`Json.compact` writes a value without blanks.  `Json.indented` puts every item
and entry on a line of its own, two blanks deeper than its container, and
leaves empty containers closed up.  Both keep the order of items and entries.
-/

import InterfaceProbe.Decimal.Shortest
import InterfaceProbe.Json.Basic
import InterfaceProbe.Json.Quoted
import InterfaceProbe.Text.Separated

namespace InterfaceProbe

/-- A number literal: the digits of an integer, or the shortest decimal of another number. -/
def JsonNumber.text : JsonNumber → String
  | .integer value => Decimal.signedNumeral value
  | .real value => value.text Decimal.Layout.messages

namespace Json

mutual

/-- The value without any blanks. -/
def compact : Json → String
  | .null => "null"
  | .bool value => if value then "true" else "false"
  | .number value => value.text
  | .string value => quoted value
  | .array items => "[" ++ separated "," (compactItems items) ++ "]"
  | .object entries => "\x7b" ++ separated "," (compactEntries entries) ++ "\x7d"
termination_by structural value => value

/-- Each item without any blanks. -/
def compactItems : List Json → List String
  | [] => []
  | item :: rest => item.compact :: compactItems rest
termination_by structural items => items

/-- Each entry as its key, a colon and its value. -/
def compactEntries : List (String × Json) → List String
  | [] => []
  | (key, value) :: rest => (quoted key ++ ":" ++ value.compact) :: compactEntries rest
termination_by structural entries => entries

end

/-- A line break followed by the blanks of a nesting level. -/
def lineBreak (level : Nat) : String :=
  "\n" ++ String.ofList (List.replicate (2 * level) ' ')

/-- Members between brackets: each on a line one level deeper, or nothing at all. -/
def bracketed (opening closing : String) (level : Nat) : List String → String
  | [] => opening ++ closing
  | members =>
    opening ++ lineBreak (level + 1) ++ separated ("," ++ lineBreak (level + 1)) members ++
      lineBreak level ++ closing

mutual

/-- The value over several lines, for a place at the given nesting level. -/
def indented (level : Nat) : Json → String
  | .null => "null"
  | .bool value => if value then "true" else "false"
  | .number value => value.text
  | .string value => quoted value
  | .array items => bracketed "[" "]" level (indentedItems (level + 1) items)
  | .object entries => bracketed "\x7b" "\x7d" level (indentedEntries (level + 1) entries)
termination_by structural value => value

/-- Each item for a place at the given nesting level. -/
def indentedItems (level : Nat) : List Json → List String
  | [] => []
  | item :: rest => item.indented level :: indentedItems level rest
termination_by structural items => items

/-- Each entry as its key, a colon, a blank and its value. -/
def indentedEntries (level : Nat) : List (String × Json) → List String
  | [] => []
  | (key, value) :: rest =>
    (quoted key ++ ": " ++ value.indented level) :: indentedEntries level rest
termination_by structural entries => entries

end

@[simp] theorem compactItems_eq_map (items : List Json) :
    compactItems items = items.map compact := by
  induction items with
  | nil => rfl
  | cons item rest ih => simp [compactItems, ih]

@[simp] theorem compactEntries_eq_map (entries : List (String × Json)) :
    compactEntries entries = entries.map fun e => quoted e.1 ++ ":" ++ e.2.compact := by
  induction entries with
  | nil => rfl
  | cons e rest ih => cases e; simp [compactEntries, ih]

@[simp] theorem indentedItems_eq_map (level : Nat) (items : List Json) :
    indentedItems level items = items.map (indented level) := by
  induction items with
  | nil => rfl
  | cons item rest ih => simp [indentedItems, ih]

@[simp] theorem indentedEntries_eq_map (level : Nat) (entries : List (String × Json)) :
    indentedEntries level entries =
      entries.map fun e => quoted e.1 ++ ": " ++ e.2.indented level := by
  induction entries with
  | nil => rfl
  | cons e rest ih => cases e; simp [indentedEntries, ih]

end Json

end InterfaceProbe
