/-
# Reading whole values

`Reader.value` reads one JSON value as a tree, with every check that JSON
asks for, and with at most the given number of arrays and objects open at a
time.  `Reader.mismatch` is for a place where a value of another type was due:
it names what stands there, after checking it as far as it has to be read for
that.
-/

import InterfaceProbe.Json.Number
import InterfaceProbe.Json.Text

namespace InterfaceProbe

/-- How a value is named where another was due. -/
def Json.found : Json → Found
  | .null => .null
  | .bool value => .bool value
  | .number (.integer value) => .integer value
  | .number (.real value) => .real value
  | .string value => .string value
  | .array _ => .sequence
  | .object _ => .map

namespace Reader

/-- Takes the word `null`. -/
def nullWord : Reader Unit := word [110, 117, 108, 108]

/-- The scalar whose first byte stands at the front of the text. -/
def scalar (b : UInt8) : Reader Json :=
  if b = 110 then do
    nullWord
    return .null
  else if b = 116 then do
    word [116, 114, 117, 101]
    return .bool true
  else if b = 102 then do
    word [102, 97, 108, 115, 101]
    return .bool false
  else if b = 45 ∨ isDigit b then do
    return .number (← number)
  else if b = 34 then do
    skip
    return .string (← literal)
  else malformed .expectedValue

/-- Opens an array or object, if one more may be open, and reads on inside it. -/
def enter {α : Type} (levels : Nat) (inside : Reader α) : Reader α :=
  if levels = 0 then malformed .tooDeep
  else do
    skip
    inside

/-- The value at the front of the text, with at most `levels` arrays and objects open. -/
def value (levels : Nat) : Reader Json := do
  let b ← peek .endInValue
  if b = 91 then
    match levels with
    | 0 => malformed .tooDeep
    | levels + 1 =>
      skip
      let collected ← items (fun collected => return (← value levels) :: collected) []
      return .array collected.reverse
  else if b = 123 then
    match levels with
    | 0 => malformed .tooDeep
    | levels + 1 =>
      skip
      let collected ← entries (fun collected => do
        let name ← key
        colon
        return (name, ← value levels) :: collected) []
      return .object collected.reverse
  else scalar b

/-- Fails because another value was due than the one that starts with the byte. -/
def mismatch {α : Type} (b : UInt8) (expected : String) : Reader α :=
  if b = 91 then fail (.invalidType .sequence expected)
  else if b = 123 then fail (.invalidType .map expected)
  else do
    let found ← scalar b
    fail (.invalidType found.found expected)

end Reader

end InterfaceProbe
