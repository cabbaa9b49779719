/-
# Reading records from a tree

What a JSON value is as the occupant of a place.  `Json.reading` answers for
every target at once, with the value or with the first fault in the order of
the text.  A type first looks for its kind and then reads the remaining
entries as those of that variant.  Entries with unknown keys are ignored.
-/

import InterfaceProbe.Json.Value
import InterfaceProbe.Wire.Record

namespace InterfaceProbe

/-- What a value is for each target it may be read as. -/
abbrev Reading := (target : Target) → Except Fault target.Value

namespace Reading

/-- The fault of a value where the target was due. -/
def mismatch {α : Type} (found : Found) (target : Target) : Except Fault α :=
  .error (.invalidType found target.expected)

/-- A scalar.  A kind may be given by its index, and a length has to fit 64 bits with sign. -/
def ofScalar (value : Json) : Reading
  | .optional target =>
    match value with
    | .null => .ok none
    | _ => some <$> ofScalar value target
  | .text =>
    match value with
    | .string text => .ok text
    | _ => mismatch value.found .text
  | .int64 =>
    match value with
    | .number (.integer n) =>
      if -0x8000000000000000 ≤ n ∧ n < 0x8000000000000000 then .ok (Int64.ofInt n)
      else .error (.invalidValue (.integer n) Target.int64.expected)
    | _ => mismatch value.found .int64
  | .dir =>
    match value with
    | .string name => ChanDir.ofName name
    | _ => mismatch value.found .dir
  | .kind =>
    match value with
    | .string name => Kind.ofName name
    | .number (.integer n) =>
      if 0 ≤ n then Kind.ofIndex n.toNat else mismatch value.found .kind
    | _ => mismatch value.found .kind
  | .unit =>
    match value with
    | .null => .ok ()
    | _ => mismatch value.found .unit
  | target => mismatch value.found target

/-- A record from an array: the items fill the slots in order.  Required slots may not run out of
items, and no item may be left over. -/
def recordOfItems {α : Type} (record : Record α) (items : List Reading) : Except Fault α := do
  let draft ← (record.slots.zip items).foldlM (fun draft (slot, reading) => do
    return draft.set slot (← reading slot.target)) Draft.empty
  match firstRequired items.length (record.slots.drop items.length) with
  | some index => .error (record.tooShort index)
  | none =>
    if record.slots.length < items.length then
      .error (.invalidLength items.length (elementCount record.slots.length ++ " in sequence"))
    else record.build draft

/-- A record from the entries of an object. -/
def recordOfEntries {α : Type} (record : Record α) (entries : List (String × Reading)) :
    Except Fault α := do
  let draft ← entries.foldlM (fun draft (key, reading) => do
    match ← record.slotFor draft key with
    | none => return draft
    | some slot => return draft.set slot (← reading slot.target)) Draft.empty
  record.build draft

/-- The kind among the entries of a type, and the other entries. -/
def kindOfEntries (entries : List (String × Reading)) :
    Except Fault (Kind × List (String × Reading)) := do
  let kind ← entries.foldlM (fun (found : Option Kind) (key, reading) => do
    if key = kindKey then
      if found.isSome then .error (.duplicateField kindKey)
      else return some (← reading .kind)
    else return found) none
  match kind with
  | none => .error (.missingField kindKey)
  | some kind => return (kind, entries.filter fun entry => entry.1 ≠ kindKey)

/-- An array, given what its items are. -/
def ofItems (items : List Reading) : Reading
  | .optional target => some <$> ofItems items target
  | .sequence target => items.mapM fun reading => reading target
  | .type =>
    match items with
    | [] => .error (.missingField kindKey)
    | first :: rest => do
      let kind ← first .kind
      recordOfItems kind.record rest
  | .parameter => recordOfItems .parameter items
  | .field => recordOfItems .field items
  | .method => recordOfItems .method items
  | .interface => recordOfItems .interface items
  | .package => recordOfItems .package items
  | target => mismatch .sequence target

/-- An object, given what the values of its entries are. -/
def ofEntries (entries : List (String × Reading)) : Reading
  | .optional target => some <$> ofEntries entries target
  | .type => do
    let (kind, rest) ← kindOfEntries entries
    recordOfEntries kind.record rest
  | .parameter => recordOfEntries .parameter entries
  | .field => recordOfEntries .field entries
  | .method => recordOfEntries .method entries
  | .interface => recordOfEntries .interface entries
  | .package => recordOfEntries .package entries
  | .dir =>
    match entries with
    | [(name, reading)] => do
      let dir ← ChanDir.ofName name
      reading .unit
      return dir
    | _ => .error (.invalidValue .map "map with a single key")
  | .unit => if entries.isEmpty then .ok () else mismatch .map .unit
  | target => mismatch .map target

end Reading

mutual

/-- What the value is for each target. -/
def Json.reading : Json → Reading
  | .array items => Reading.ofItems (itemReadings items)
  | .object entries => Reading.ofEntries (entryReadings entries)
  | .null => Reading.ofScalar .null
  | .bool value => Reading.ofScalar (.bool value)
  | .number value => Reading.ofScalar (.number value)
  | .string value => Reading.ofScalar (.string value)
termination_by structural value => value

/-- What each item is for each target. -/
def itemReadings : List Json → List Reading
  | [] => []
  | item :: rest => item.reading :: itemReadings rest
termination_by structural items => items

/-- What the value of each entry is for each target. -/
def entryReadings : List (String × Json) → List (String × Reading)
  | [] => []
  | (key, value) :: rest => (key, value.reading) :: entryReadings rest
termination_by structural entries => entries

end

@[simp] theorem itemReadings_eq_map (items : List Json) :
    itemReadings items = items.map Json.reading := by
  induction items with
  | nil => rfl
  | cons item rest ih => simp [itemReadings, ih]

@[simp] theorem entryReadings_eq_map (entries : List (String × Json)) :
    entryReadings entries = entries.map fun e => (e.1, e.2.reading) := by
  induction entries with
  | nil => rfl
  | cons e rest ih => cases e; simp [entryReadings, ih]

end InterfaceProbe
