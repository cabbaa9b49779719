/-
# What texts and trees mean

The wire form as a relation, said without a reader.  A place of the wire form
offers a `Meaning`: the values it may be read as, target by target.  Records
are described by the meanings that their entries give to keys, so the same
description serves the tree of a buffered type and the text of everything that
is read while it goes by.

`Json.meaning` is the meaning of a tree and `TextMeans` that of a text with a
bound on the arrays and objects open at a time.  Neither mentions a fault, an
order of checks or a partly read record.
-/

import InterfaceProbe.Proofs.Json.Skipped

namespace InterfaceProbe

open Grammar

/-- The values that a place may be read as, for each target. -/
abbrev Meaning := (target : Target) → target.Value → Prop

section Records

/-- A record as it is written: an array of its values or an object with entries. -/
inductive Form (X : Type)
  | items (values : List X)
  | entries (members : List (String × X))

namespace Form

variable {X : Type}

/-- The entries of a record with the given keys.  An array gives its items the keys in order. -/
def members (keys : List String) : Form X → List (String × X)
  | .items values => keys.zip values
  | .entries members => members

/-- An array has no more items than there are keys. -/
def Fits (keys : List String) : Form X → Prop
  | .items values => values.length ≤ keys.length
  | .entries _ => True

/-- The form has a first item, or exactly one entry with the key of kinds, and a remainder. -/
def Tagged : Form X → X → Form X → Prop
  | .items values, tag, rest => ∃ others, values = tag :: others ∧ rest = .items others
  | .entries members, tag, rest =>
    (members.filter fun member => member.1 = kindKey).map Prod.snd = [tag] ∧
      rest = .entries (members.filter fun member => member.1 ≠ kindKey)

end Form

/-- The values that entries give to a key. -/
def valuesAt {X : Type} (members : List (String × X)) (key : String) : List X :=
  (members.filter fun member => member.1 = key).map Prod.snd

/-- The key occurs once, with the value. -/
def Required (members : List (String × Meaning)) (key : String) (target : Target)
    (value : target.Value) : Prop :=
  ∃ meaning, valuesAt members key = [meaning] ∧ meaning target value

/-- The key occurs once, with the value, or does not occur, and the value is the default. -/
def Defaulted (members : List (String × Meaning)) (key : String) (target : Target)
    (default value : target.Value) : Prop :=
  valuesAt members key = [] ∧ value = default ∨ Required members key target value

/-- The records of the wire form. -/
inductive Shape
  | package | interface | method | parameter | field
  | variant (kind : Kind)
  deriving DecidableEq

namespace Shape

/-- What a record of the shape is read as. -/
@[reducible] def target : Shape → Target
  | .package => .package
  | .interface => .interface
  | .method => .method
  | .parameter => .parameter
  | .field => .field
  | .variant _ => .type

/-- The known keys, in declaration order. -/
def keys : Shape → List String
  | .package => ["name", "interfaces"]
  | .interface => ["name", "methods"]
  | .method => ["name", "params", "results", "variadic"]
  | .parameter | .field => ["name", "type"]
  | .variant .named => ["package", "name"]
  | .variant .pointer => ["elem"]
  | .variant .array => ["len", "elem"]
  | .variant .map => ["key", "value"]
  | .variant .chan => ["dir", "elem"]
  | .variant .func => ["params", "results", "variadic"]
  | .variant .struct => ["fields"]
  | .variant .interface => ["methods"]
  | .variant .predeclared => ["name"]

/-- The entries give the parts of the value, each under its key. -/
def Describes (members : List (String × Meaning)) : (shape : Shape) → shape.target.Value → Prop
  | .package, value =>
    Required members "name" .text value.name ∧
      Defaulted members "interfaces" (.sequence .interface) [] value.interfaces
  | .interface, value =>
    Required members "name" .text value.name ∧
      Defaulted members "methods" (.sequence .method) [] value.methods
  | .method, value =>
    Required members "name" .text value.name ∧
      Defaulted members "params" (.sequence .parameter) [] value.params ∧
      Defaulted members "results" (.sequence .parameter) [] value.results ∧
      Defaulted members "variadic" (.optional .parameter) none value.variadic
  | .parameter, value =>
    Defaulted members "name" .text "" value.name ∧
      Required members "type" .type value.type
  | .field, value =>
    Required members "name" .text value.name ∧ Required members "type" .type value.type
  | .variant .named, type =>
    ∃ path name, type = .named path name ∧
      Defaulted members "package" (.optional .text) none path ∧
      Required members "name" .text name
  | .variant .pointer, type =>
    ∃ elem, type = .pointer elem ∧ Required members "elem" .type elem
  | .variant .array, type =>
    ∃ len elem, type = .array len elem ∧
      Defaulted members "len" (.optional .int64) none len ∧ Required members "elem" .type elem
  | .variant .map, type =>
    ∃ key value, type = .map key value ∧
      Required members "key" .type key ∧ Required members "value" .type value
  | .variant .chan, type =>
    ∃ dir elem, type = .chan dir elem ∧
      Defaulted members "dir" .dir .both dir ∧ Required members "elem" .type elem
  | .variant .func, type =>
    ∃ params results variadic, type = .func params results variadic ∧
      Defaulted members "params" (.sequence .parameter) [] params ∧
      Defaulted members "results" (.sequence .parameter) [] results ∧
      Defaulted members "variadic" (.optional .parameter) none variadic
  | .variant .struct, type =>
    ∃ fields, type = .struct fields ∧ Defaulted members "fields" (.sequence .field) [] fields
  | .variant .interface, type =>
    ∃ methods, type = .interface methods ∧
      Defaulted members "methods" (.sequence .method) [] methods
  | .variant .predeclared, type =>
    ∃ name, type = .predeclared name ∧ Required members "name" .text name

end Shape

/-- The form is a record of the shape with the value.  Entries with unknown keys count for nothing,
but what they hold has to pass as something to ignore. -/
structure IsRecord {X : Type} (shape : Shape) (ignored : X → Prop) (means : X → Meaning)
    (form : Form X) (value : shape.target.Value) : Prop where
  fits : form.Fits shape.keys
  unknown : ∀ member ∈ form.members shape.keys, member.1 ∉ shape.keys → ignored member.2
  known : shape.Describes ((form.members shape.keys).map fun member => (member.1, means member.2))
    value

/-- The form is a type: its kind, once, and a record of that variant. -/
def IsType {X : Type} (isKind : X → Kind → Prop) (means : X → Meaning) (form : Form X)
    (type : GoType) : Prop :=
  ∃ tag rest kind, form.Tagged tag rest ∧ isKind tag kind ∧
    IsRecord (.variant kind) (fun _ => True) means rest type

end Records

section Trees

/-- What a scalar may be read as.  Only here may a kind be given by its index. -/
def scalarMeaning (value : Json) : Meaning
  | .optional target, found =>
    match value with
    | .null => found = none
    | _ => ∃ present, found = some present ∧ scalarMeaning value target present
  | .text, text => value = .string text
  | .int64, n => value = .int n.toInt
  | .dir, dir => value = .string dir.name
  | .kind, kind =>
    value = .string kind.name ∨ ∃ index : Nat, value = .int index ∧ Kind.all[index]? = some kind
  | .unit, _ => value = .null
  | _, _ => False

/-- What an array or object may be read as, given what is inside. -/
def formMeaning (form : Form Meaning) : Meaning
  | .optional target, found => ∃ present, found = some present ∧ formMeaning form target present
  | .sequence target, values =>
    ∃ items, form = .items items ∧ List.Forall₂ (fun item value => item target value) items values
  | .type, type => IsType (fun tag kind => tag .kind kind) id form type
  | .parameter, parameter => IsRecord .parameter (fun _ => True) id form parameter
  | .field, field => IsRecord .field (fun _ => True) id form field
  | .method, method => IsRecord .method (fun _ => True) id form method
  | .interface, interface => IsRecord .interface (fun _ => True) id form interface
  | .package, package => IsRecord .package (fun _ => True) id form package
  | .dir, dir => ∃ content, form = .entries [(dir.name, content)] ∧ content .unit ()
  | .unit, _ => form = .entries []
  | _, _ => False

mutual

/-- What a tree may be read as. -/
def Json.meaning : Json → Meaning
  | .array items => formMeaning (.items (itemMeanings items))
  | .object entries => formMeaning (.entries (entryMeanings entries))
  | .null => scalarMeaning .null
  | .bool value => scalarMeaning (.bool value)
  | .number value => scalarMeaning (.number value)
  | .string value => scalarMeaning (.string value)
termination_by structural value => value

/-- What each item may be read as. -/
def itemMeanings : List Json → List Meaning
  | [] => []
  | item :: rest => item.meaning :: itemMeanings rest
termination_by structural items => items

/-- What the value of each entry may be read as. -/
def entryMeanings : List (String × Json) → List (String × Meaning)
  | [] => []
  | (key, value) :: rest => (key, value.meaning) :: entryMeanings rest
termination_by structural entries => entries

end

/-- The tree of a record in the given form. -/
def Form.json : Form Json → Json
  | .items values => .array values
  | .entries members => .object members

end Trees

section Texts

/-- The text of an array or object whose items or values have the given texts. -/
def FormText : Form Bytes → Bytes → Prop
  | .items items, text => ArrayText items text
  | .entries members, text =>
    ∃ texts, ObjectText texts text ∧
      List.Forall₂ (fun member texts => StringText texts.1 member.1 ∧ texts.2 = member.2)
        members texts

/-- The word for an absent value. -/
def nullText : Bytes := [110, 117, 108, 108]

/-- What a text may be read as by way of its tree. -/
def TreeText (levels : Nat) (text : Bytes) : Meaning := fun target value =>
  ∃ tree, ValueText text tree ∧ tree.depth ≤ levels ∧ tree.meaning target value

/-- The text of a type: a tree of its own, whose kind is named. -/
def TypeText (levels : Nat) (text : Bytes) (type : GoType) : Prop :=
  ∃ form : Form Json, ValueText text form.json ∧ form.json.depth ≤ levels ∧
    IsType (fun tag kind => tag = .string kind.name) Json.meaning form type

/-- The text of a record, given what the texts inside may be read as.  The value of an unknown key
may be any value. -/
def RecordText (levels : Nat) (inner : Bytes → Meaning) (shape : Shape) (text : Bytes)
    (value : shape.target.Value) : Prop :=
  0 < levels ∧ ∃ form, FormText form text ∧ IsRecord shape WellFormed inner form value

/-- What a text may be read as with at most `levels` arrays and objects open, given what the texts
inside may be read as. -/
def textMeaning (levels : Nat) (inner : Bytes → Meaning) (text : Bytes) : Meaning
  | .text, value => StringText text value
  | .kind, kind => StringText text kind.name
  | .type, type => TypeText levels text type
  | .parameter, parameter => RecordText levels inner .parameter text parameter
  | .method, method => RecordText levels inner .method text method
  | .interface, interface => RecordText levels inner .interface text interface
  | .package, package => RecordText levels inner .package text package
  | .sequence target, values => 0 < levels ∧
    ∃ items, ArrayText items text ∧
      List.Forall₂ (fun item value => inner item target value) items values
  | .optional target, found =>
    text = nullText ∧ found = none ∨
      text ≠ nullText ∧
        ∃ present, found = some present ∧ textMeaning levels inner text target present
  | .int64, value => TreeText levels text .int64 value
  | .dir, value => TreeText levels text .dir value
  | .unit, value => TreeText levels text .unit value
  | .field, value => TreeText levels text .field value

/-- What a text may be read as with at most `levels` arrays and objects open; the values of unknown
keys outside types are not counted. -/
def TextMeans : Nat → Bytes → Meaning
  | 0 => textMeaning 0 fun _ _ _ => False
  | levels + 1 => textMeaning (levels + 1) (TextMeans levels)

end Texts

@[simp] theorem itemMeanings_eq_map (items : List Json) :
    itemMeanings items = items.map Json.meaning := by
  induction items with
  | nil => rfl
  | cons item rest ih => simp [itemMeanings, ih]

@[simp] theorem entryMeanings_eq_map (entries : List (String × Json)) :
    entryMeanings entries = entries.map fun entry => (entry.1, entry.2.meaning) := by
  induction entries with
  | nil => rfl
  | cons entry rest ih =>
      cases entry
      simp [entryMeanings, ih]

end InterfaceProbe
