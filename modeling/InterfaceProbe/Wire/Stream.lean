/-
# Reading records from a text

Packages, interfaces, methods and parameters are read while their text goes
by, so a value of the wrong type is reported before anything that follows it.
Values under unknown keys are skipped.  A type is read whole, except that its
kind is checked where it stands, and is then interpreted as a tree.

At most 127 arrays and objects may be open at a time, skipped values not
counted.
-/

import InterfaceProbe.Json.Skip
import InterfaceProbe.Wire.Tree

namespace InterfaceProbe

namespace Reader

/-- A text. -/
def text : Reader String := do
  let b ← peek .endInValue
  if b = 34 then
    skip
    literal
  else mismatch b Target.text.expected

/-- The name of a kind; where the text is read as it goes by, an index is no kind. -/
def kindName : Reader Kind := do
  let b ← peek .endInValue
  if b = 34 then
    skip
    let name ← literal
    ofExcept (Kind.ofName name)
  else mismatch b Target.kind.expected

/-- Whether another item follows in an array; its comma is taken, the closing bracket is not. -/
def anotherItem (isFirst : Bool) : Reader Bool := do
  let b ← peek .endInArray
  if b = 93 then return false
  else if isFirst then return true
  else if b = 44 then
    skip
    let c ← peek .endInValue
    if c = 93 then malformed .trailingComma else return true
  else malformed .expectedArrayEnd

/-- The end of an array that may have no further item. -/
def lastBracket : Reader Unit := do
  let b ← peek .endInArray
  if b = 93 then skip
  else if b = 44 then
    skip
    let c ← peek?
    if c = some 93 then malformed .trailingComma else malformed .trailingCharacters
  else malformed .trailingCharacters

section Records

variable {α : Type} (record : Record α) (read : (slot : Slot) → Reader slot.Value)

/-- The slots from `index` on, one item each, and the end of the array. -/
def slotItems (index : Nat) : List Slot → Draft → Reader Draft
  | [], draft => do
    lastBracket
    return draft
  | slot :: rest, draft => do
    if ← anotherItem (index == 0) then
      let value ← read slot
      slotItems (index + 1) rest (draft.set slot value)
    else
      match firstRequired index (slot :: rest) with
      | some missing => fail (record.tooShort missing)
      | none =>
        skip
        return draft

/-- One entry of a record: a known key with its value, or an unknown one with any value. -/
def slotEntry (draft : Draft) : Reader Draft := do
  let name ← key
  let slot ← ofExcept (record.slotFor draft name)
  colon
  match slot with
  | none =>
    skipValue
    return draft
  | some slot =>
    let value ← read slot
    return draft.set slot value

/-- A record in either form, with at most `levels` arrays and objects open. -/
def recordValue (levels : Nat) : Reader α := do
  let b ← peek .endInValue
  if b = 91 then
    let draft ← enter levels (slotItems record read 0 record.slots Draft.empty)
    ofExcept (record.build draft)
  else if b = 123 then
    let draft ← enter levels (entries (slotEntry record read) Draft.empty)
    ofExcept (record.build draft)
  else mismatch b record.label

end Records

/-- One item of a type written as an array: its kind first, then values. -/
def typeItem (levels : Nat) : Option (Kind × List Json) → Reader (Option (Kind × List Json))
  | none => return some (← kindName, [])
  | some (kind, values) => return some (kind, (← value levels) :: values)

/-- One entry of a type written as an object: its kind, once, or any other value. -/
def typeEntry (levels : Nat) (found : Option Kind × List (String × Json)) :
    Reader (Option Kind × List (String × Json)) := do
  let name ← key
  if name = kindKey then
    if found.1.isSome then fail (.duplicateField kindKey)
    else
      colon
      return (some (← kindName), found.2)
  else
    colon
    return (found.1, (name, ← value levels) :: found.2)

/-- A type, with at most `levels` arrays and objects open. -/
def typeValue (levels : Nat) : Reader GoType := do
  let b ← peek .endInValue
  if b = 91 then
    match ← enter levels (items (typeItem (levels - 1)) none) with
    | none => fail (.missingField kindKey)
    | some (kind, values) =>
      ofExcept (Reading.recordOfItems kind.record (itemReadings values.reverse))
  else if b = 123 then
    match ← enter levels (entries (typeEntry (levels - 1)) (none, [])) with
    | (none, _) => fail (.missingField kindKey)
    | (some kind, values) =>
      ofExcept (Reading.recordOfEntries kind.record (entryReadings values.reverse))
  else mismatch b Target.type.expected

/-- A list, with at most `levels` arrays and objects open. -/
def sequence {α : Type} (levels : Nat) (item : Reader α) : Reader (List α) := do
  let b ← peek .endInValue
  if b = 91 then
    let collected ← enter levels (items (fun collected => return (← item) :: collected) [])
    return collected.reverse
  else mismatch b (Target.sequence .unit).expected

/-- A value, or null for none. -/
def optional {α : Type} (present : Reader α) : Reader (Option α) := do
  let b ← peek .endInValue
  if b = 110 then
    nullWord
    return none
  else return some (← present)

/-- The target's value, given how the targets one level further in are read. -/
def targetValue (levels : Nat) (inner : (target : Target) → Reader target.Value) :
    (target : Target) → Reader target.Value
  | .text => text
  | .kind => kindName
  | .type => typeValue levels
  | .parameter => recordValue .parameter (fun slot => inner slot.target) levels
  | .method => recordValue .method (fun slot => inner slot.target) levels
  | .interface => recordValue .interface (fun slot => inner slot.target) levels
  | .package => recordValue .package (fun slot => inner slot.target) levels
  | .sequence target => sequence levels (inner target)
  | .optional target => optional (targetValue levels inner target)
  | .int64 => do ofExcept ((← value levels).reading .int64)
  | .dir => do ofExcept ((← value levels).reading .dir)
  | .unit => do ofExcept ((← value levels).reading .unit)
  | .field => do ofExcept ((← value levels).reading .field)

/-- The target's value, with at most `levels` arrays and objects open. -/
def stream : Nat → (target : Target) → Reader target.Value
  | 0 => targetValue 0 fun _ => malformed .tooDeep
  | levels + 1 => targetValue (levels + 1) (stream levels)

end Reader

/-- How many arrays and objects may be open at a time. -/
def maxLevels : Nat := 127

/-- The package that a text describes: one value, with white space around it and nothing else. -/
def readPackage (text : Bytes) : Except Fault Package :=
  match (Reader.stream maxLevels .package).run text with
  | .error fault => .error fault
  | .ok (package, rest) =>
    if Reader.skipBlank rest = [] then .ok package
    else .error (.malformed .trailingCharacters)

end InterfaceProbe
