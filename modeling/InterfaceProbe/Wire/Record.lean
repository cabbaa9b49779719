/-
# Records of the wire form

The wire form writes packages, interfaces, methods, parameters, fields and the
variants of a type as records: objects with known keys, or arrays with the
same values in declaration order.  A `Slot` is one known key with the type of
its value and, unless it is required, its default.  A `Record` lists its slots
and builds a value from those that were filled.

What a place should hold is a `Target`; it fixes the type of the result, so
one reader serves every place.
-/

import InterfaceProbe.Json.Fault
import InterfaceProbe.Model.Basic

namespace InterfaceProbe

/-- The variants of a type, in the order that gives each its index. -/
inductive Kind
  | named | pointer | array | map | chan | func | struct | interface | predeclared
  deriving DecidableEq, Repr

namespace Kind

/-- Every kind, at its index. -/
def all : List Kind :=
  [.named, .pointer, .array, .map, .chan, .func, .struct, .interface, .predeclared]

/-- The name a kind has on the wire. -/
def name : Kind → String
  | .named => "named"
  | .pointer => "pointer"
  | .array => "array"
  | .map => "map"
  | .chan => "chan"
  | .func => "func"
  | .struct => "struct"
  | .interface => "interface"
  | .predeclared => "predeclared"

/-- The kind with the given name. -/
def ofName (name : String) : Except Fault Kind :=
  match all.find? fun kind => kind.name == name with
  | some kind => .ok kind
  | none => .error (.unknownVariant name (all.map Kind.name))

/-- The kind with the given index. -/
def ofIndex (index : Nat) : Except Fault Kind :=
  match all[index]? with
  | some kind => .ok kind
  | none => .error (.invalidValue (.integer index) "variant index 0 <= i < 9")

end Kind

namespace ChanDir

/-- Every direction. -/
def all : List ChanDir := [.both, .recv, .send]

/-- The name a direction has on the wire. -/
def name : ChanDir → String
  | .both => "both"
  | .recv => "recv"
  | .send => "send"

/-- The direction with the given name. -/
def ofName (name : String) : Except Fault ChanDir :=
  match all.find? fun dir => dir.name == name with
  | some dir => .ok dir
  | none => .error (.unknownVariant name (all.map ChanDir.name))

end ChanDir

/-- What a place of the wire form should hold. -/
inductive Target
  | text | int64 | dir | kind | unit
  | type | parameter | field | method | interface | package
  /-- A value or null. -/
  | optional (target : Target)
  /-- A list of values. -/
  | sequence (target : Target)
  deriving DecidableEq, Repr

/-- What a target is read as. -/
@[reducible] def Target.Value : Target → Type
  | .text => String
  | .int64 => Int64
  | .dir => ChanDir
  | .kind => Kind
  | .unit => Unit
  | .type => GoType
  | .parameter => Parameter
  | .field => Field
  | .method => Method
  | .interface => Interface
  | .package => Package
  | .optional target => Option target.Value
  | .sequence target => List target.Value

/-- A known key of a record. -/
inductive Slot
  | name | parameterName
  | interfaces | methods | params | results | variadic
  | type | package | elem | len | key | value | dir | fields
  deriving DecidableEq, Repr

namespace Slot

/-- The key as it is written. -/
def label : Slot → String
  | .name | .parameterName => "name"
  | .interfaces => "interfaces"
  | .methods => "methods"
  | .params => "params"
  | .results => "results"
  | .variadic => "variadic"
  | .type => "type"
  | .package => "package"
  | .elem => "elem"
  | .len => "len"
  | .key => "key"
  | .value => "value"
  | .dir => "dir"
  | .fields => "fields"

/-- What the value of the key should be. -/
@[reducible] def target : Slot → Target
  | .name | .parameterName => .text
  | .interfaces => .sequence .interface
  | .methods => .sequence .method
  | .params | .results => .sequence .parameter
  | .variadic => .optional .parameter
  | .type | .elem | .key | .value => .type
  | .package => .optional .text
  | .len => .optional .int64
  | .dir => .dir
  | .fields => .sequence .field

/-- The type of the value of the key. -/
@[reducible] def Value (slot : Slot) : Type := slot.target.Value

/-- The value of a key that is left out; a required key has none. -/
def default? : (slot : Slot) → Option slot.Value
  | .name | .type | .elem | .key | .value => none
  | .parameterName => some ""
  | .interfaces => some []
  | .methods => some []
  | .params => some []
  | .results => some []
  | .variadic => some none
  | .package => some none
  | .len => some none
  | .dir => some .both
  | .fields => some []

/-- Whether a record without this key is incomplete. -/
def isRequired (slot : Slot) : Bool := slot.default?.isNone

end Slot

/-- A partly read record: the slots filled so far. -/
def Draft := (slot : Slot) → Option slot.Value

namespace Draft

/-- No slot is filled. -/
def empty : Draft := fun _ => none

/-- Fills a slot. -/
def set (draft : Draft) (slot : Slot) (value : slot.Value) : Draft :=
  fun other => if h : slot = other then some (h ▸ value) else draft other

/-- The value of a slot: what it was filled with, else its default. -/
def get (draft : Draft) (slot : Slot) : Except Fault slot.Value :=
  match (draft slot).or slot.default? with
  | some value => .ok value
  | none => .error (.missingField slot.label)

@[simp] theorem set_self (draft : Draft) (slot : Slot) (value : slot.Value) :
    draft.set slot value slot = some value := by
  simp [set]

theorem set_of_ne (draft : Draft) {slot other : Slot} (value : slot.Value)
    (h : slot ≠ other) : draft.set slot value other = draft other := by
  simp [set, h]

end Draft

/-- How a record is written: its name in messages, its slots in declaration order, and the value
that they make up. -/
structure Record (α : Type) where
  label : String
  slots : List Slot
  build : Draft → Except Fault α

/-- A number of elements, as messages give it. -/
def elementCount (n : Nat) : String :=
  Decimal.numeral n ++ if n = 1 then " element" else " elements"

namespace Record

variable {α : Type}

/-- The slot with the given key. -/
def slot? (record : Record α) (key : String) : Option Slot :=
  record.slots.find? fun slot => slot.label == key

/-- The slot that an entry with this key fills.  An unknown key fills none, and no slot is filled
twice. -/
def slotFor (record : Record α) (draft : Draft) (key : String) : Except Fault (Option Slot) :=
  match record.slot? key with
  | none => .ok none
  | some slot =>
    if (draft slot).isSome then .error (.duplicateField key) else .ok (some slot)

/-- The fault of an array that stops before the element with this index. -/
def tooShort (record : Record α) (index : Nat) : Fault :=
  .invalidLength index (record.label ++ " with " ++ elementCount record.slots.length)

end Record

/-- The index of the first required slot, counting from `index`. -/
def firstRequired (index : Nat) : List Slot → Option Nat
  | [] => none
  | slot :: rest => if slot.isRequired then some index else firstRequired (index + 1) rest

namespace Record

/-- A package and its interfaces. -/
def package : Record Package where
  label := "struct Package"
  slots := [.name, .interfaces]
  build draft := do
    let name ← draft.get .name
    let interfaces ← draft.get .interfaces
    return { name, interfaces }

/-- An interface and its methods. -/
def interface : Record Interface where
  label := "struct Interface"
  slots := [.name, .methods]
  build draft := do
    let name ← draft.get .name
    let methods ← draft.get .methods
    return { name, methods }

/-- A method and its signature. -/
def method : Record Method where
  label := "struct Method"
  slots := [.name, .params, .results, .variadic]
  build draft := do
    let name ← draft.get .name
    let params ← draft.get .params
    let results ← draft.get .results
    let variadic ← draft.get .variadic
    return { name, params, results, variadic }

/-- A parameter, whose name may be left out. -/
def parameter : Record Parameter where
  label := "struct Parameter"
  slots := [.parameterName, .type]
  build draft := do
    let name ← draft.get .parameterName
    let type ← draft.get .type
    return { name, type }

/-- A field of a struct literal. -/
def field : Record Field where
  label := "struct Field"
  slots := [.name, .type]
  build draft := do
    let name ← draft.get .name
    let type ← draft.get .type
    return { name, type }

end Record

/-- The record of each variant of a type. -/
def Kind.record : Kind → Record GoType
  | .named =>
    { label := "struct variant Type::Named"
      slots := [.package, .name]
      build := fun draft => do
        let package ← draft.get .package
        let name ← draft.get .name
        return .named package name }
  | .pointer =>
    { label := "struct variant Type::Pointer"
      slots := [.elem]
      build := fun draft => do
        let elem ← draft.get .elem
        return .pointer elem }
  | .array =>
    { label := "struct variant Type::Array"
      slots := [.len, .elem]
      build := fun draft => do
        let len ← draft.get .len
        let elem ← draft.get .elem
        return .array len elem }
  | .map =>
    { label := "struct variant Type::Map"
      slots := [.key, .value]
      build := fun draft => do
        let key ← draft.get .key
        let value ← draft.get .value
        return .map key value }
  | .chan =>
    { label := "struct variant Type::Chan"
      slots := [.dir, .elem]
      build := fun draft => do
        let dir ← draft.get .dir
        let elem ← draft.get .elem
        return .chan dir elem }
  | .func =>
    { label := "struct variant Type::Func"
      slots := [.params, .results, .variadic]
      build := fun draft => do
        let params ← draft.get .params
        let results ← draft.get .results
        let variadic ← draft.get .variadic
        return .func params results variadic }
  | .struct =>
    { label := "struct variant Type::Struct"
      slots := [.fields]
      build := fun draft => do
        let fields ← draft.get .fields
        return .struct fields }
  | .interface =>
    { label := "struct variant Type::Interface"
      slots := [.methods]
      build := fun draft => do
        let methods ← draft.get .methods
        return .interface methods }
  | .predeclared =>
    { label := "struct variant Type::Predeclared"
      slots := [.name]
      build := fun draft => do
        let name ← draft.get .name
        return .predeclared name }

/-- The key that says which variant a type is. -/
def kindKey : String := "kind"

/-- How messages name what a target should hold. -/
def Target.expected : Target → String
  | .text => "a string"
  | .int64 => "i64"
  | .dir => "string or map"
  | .kind => "variant identifier"
  | .unit => "unit"
  | .type => "internally tagged enum Type"
  | .parameter => Record.parameter.label
  | .field => Record.field.label
  | .method => Record.method.label
  | .interface => Record.interface.label
  | .package => Record.package.label
  | .optional target => target.expected
  | .sequence _ => "a sequence"

end InterfaceProbe
