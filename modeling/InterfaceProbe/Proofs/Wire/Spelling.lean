/-
# Spellings of the wire form

The wire form of a package may be written in many ways: keys in any order,
white space between tokens, other escapes, entries with default values left
out, null for what is absent and entries with unknown keys put in.  `Spells`
collects these ways in one relation between a tree and the texts that spell
it, and every spelling of a package is a text that means it.

What an unknown entry may hold is a parameter.  Outside types any well-formed
value will do; the entries of a type are read as trees, so there the value has
to denote one.
-/

import InterfaceProbe.Proofs.Wire.Framing

namespace InterfaceProbe

open Grammar

section Wire

/-- The wire form of a value of each target. -/
def wireForm : (target : Target) → target.Value → Json
  | .text, value => .string value
  | .int64, value => .int value.toInt
  | .dir, value => .string value.name
  | .kind, value => .string value.name
  | .unit, _ => .null
  | .type, value => value.toJson
  | .parameter, value => value.toJson
  | .field, value => value.toJson
  | .method, value => value.toJson
  | .interface, value => value.toJson
  | .package, value => value.toJson
  | .optional target, value =>
    match value with
    | none => .null
    | some present => wireForm target present
  | .sequence target, values => .array (values.map (wireForm target))

@[simp] theorem wireForm_parameter : wireForm .parameter = Parameter.toJson := rfl

@[simp] theorem wireForm_field : wireForm .field = Field.toJson := rfl

@[simp] theorem wireForm_method : wireForm .method = Method.toJson := rfl

@[simp] theorem wireForm_interface : wireForm .interface = Interface.toJson := rfl

@[simp] theorem mem_optionalEntry_iff {α : Type} {key name : String} {tree : Json}
    {value : Option α} {f : α → Json} :
    (key, tree) ∈ optionalEntry name (value.map f) ↔
      key = name ∧ ∃ present, value = some present ∧ tree = f present := by
  cases value <;> simp [optionalEntry]

/-- What the wire form has at a key. -/
def entryTarget : String → Target
  | "interfaces" => .sequence .interface
  | "methods" => .sequence .method
  | "params" => .sequence .parameter
  | "results" => .sequence .parameter
  | "fields" => .sequence .field
  | "variadic" => .parameter
  | "type" => .type
  | "elem" => .type
  | "key" => .type
  | "value" => .type
  | "len" => .int64
  | "dir" => .dir
  | "kind" => .kind
  | _ => .text

namespace Shape

/-- Whether a record of the shape is read as a tree wherever it stands. -/
def isBuffered : Shape → Bool
  | .field | .variant _ => true
  | _ => false

/-- The keys with a meaning in a record of the shape. -/
def known : Shape → List String
  | .variant kind => kindKey :: (Shape.variant kind).keys
  | shape => shape.keys

/-- The entries that may be left out of the wire form. -/
def defaults : Shape → List (String × Json)
  | .package => [("interfaces", .array [])]
  | .interface => [("methods", .array [])]
  | .method => [("params", .array []), ("results", .array [])]
  | .parameter => [("name", .string "")]
  | .variant .chan => [("dir", .string "both")]
  | .variant .func => [("params", .array []), ("results", .array [])]
  | .variant .struct => [("fields", .array [])]
  | .variant .interface => [("methods", .array [])]
  | _ => []

/-- The entries of a variant say its kind. -/
def HasKind (entries : List (String × Json)) : Shape → Prop
  | .variant kind => (kindKey, .string kind.name) ∈ entries
  | _ => True

end Shape

end Wire

section Spellings

/-- The values that an object gives to a key of the wire form. -/
inductive Supplied (spells : Target → Json → Bytes → Prop) (defaults entries : List (String × Json))
    (key : String) : List Bytes → Prop
  /-- The value of the wire form, spelled. -/
  | written {value : Json} {text : Bytes} : (key, value) ∈ entries →
      spells (entryTarget key) value text → Supplied spells defaults entries key [text]
  /-- No value, where that of the wire form is the default. -/
  | omitted {value : Json} : (key, value) ∈ entries → (key, value) ∈ defaults →
      Supplied spells defaults entries key []
  /-- No value, where the wire form has none. -/
  | absent : key ∉ entries.map Prod.fst → Supplied spells defaults entries key []
  /-- Null, where the wire form has no value. -/
  | null : key ∉ entries.map Prod.fst → Supplied spells defaults entries key [nullText]

/-- The text spells the tree at a place of the target, with at most `levels` arrays and objects
open.  Strings may use any escapes, and what stands in an object has no order.  Values under unknown
keys are what `extra` allows, inside a type or outside, at the levels that are left. -/
def Spells (extra : Bool → Nat → Bytes → Prop) (levels : Nat) (inType : Bool) (target : Target)
    (tree : Json) (text : Bytes) : Prop :=
  match tree with
  | .string value => StringText text value
  | .number number => ValueText text (.number number)
  | .array items =>
    match levels, target with
    | levels + 1, .sequence target => ∃ texts, ArrayText texts text ∧
        List.Forall₂ (fun item text => Spells extra levels inType target item text) items texts
    | _, _ => False
  | .object entries =>
    match levels with
    | 0 => False
    | levels + 1 => ∃ (shape : Shape) (members : List (String × Bytes)),
        shape.target = target ∧ shape.HasKind entries ∧ FormText (.entries members) text ∧
        (∀ key ∈ shape.known,
          Supplied (Spells extra levels (inType || shape.isBuffered)) shape.defaults entries key
            (valuesAt members key)) ∧
        ∀ member ∈ members, member.1 ∉ shape.known →
          extra (inType || shape.isBuffered) levels member.2
  | _ => False

/-- What an unknown entry may hold: inside a type a tree within the levels that are left, outside
any well-formed value. -/
def Ignorable (inType : Bool) (levels : Nat) (text : Bytes) : Prop :=
  if inType then ∃ tree, ValueText text tree ∧ tree.depth ≤ levels else WellFormed text

end Spellings

theorem kind_eq_of_name_eq {kind other : Kind} (h : kind.name = other.name) : kind = other := by
  have hkind := Reading.kind_ofName_eq_ok_iff.2 h
  rw [Reading.kind_ofName_eq_ok_iff.2 rfl] at hkind
  cases hkind
  rfl

/-- The entries of a type say its kind once. -/
theorem eq_of_hasKind {kind other : Kind} {rest : List (String × Json)}
    (h : Shape.HasKind ((kindKey, .string other.name) :: rest) (.variant kind))
    (hrest : ∀ tree, (kindKey, tree) ∉ rest) : kind = other := by
  rcases List.mem_cons.1 h with hfirst | hmem
  · have hname : kind.name = other.name := by simpa using hfirst
    exact kind_eq_of_name_eq hname
  · exact absurd hmem (hrest _)

section Entries

variable {X : Type} {spells : Target → Json → Bytes → Prop} {shape : Shape}
  {defaults entries : List (String × Json)} {members : List (String × Bytes)}
  {means : Bytes → Meaning} {key : String} {target : Target}
  (hmeans : ∀ target value text, spells target (wireForm target value) text →
    means text target value ∧ means text (.optional target) (some value))

include hmeans

/-- A required key is given the value of the wire form. -/
theorem required_of_supplied {value : target.Value} (htarget : entryTarget key = target)
    (hsupplied : Supplied spells defaults entries key (valuesAt members key))
    (hentry : ∀ tree, (key, tree) ∈ entries ↔ tree = wireForm target value)
    (hdefault : ∀ tree, (key, tree) ∉ defaults) :
    Required (meanings means members) key target value := by
  have hmem := (hentry _).2 rfl
  generalize htexts : valuesAt members key = texts at hsupplied
  cases hsupplied with
  | @written tree text hwritten hspells =>
      rw [(hentry tree).1 hwritten, htarget] at hspells
      exact required_meanings_iff.2 ⟨text, htexts, (hmeans _ _ _ hspells).1⟩
  | omitted _ homitted => exact absurd homitted (hdefault _)
  | absent habsent => exact absurd (List.mem_map_of_mem hmem) habsent
  | null habsent => exact absurd (List.mem_map_of_mem hmem) habsent

/-- A key with a default is given the value of the wire form, or none where that is the default. -/
theorem defaulted_of_supplied {value default : target.Value} (htarget : entryTarget key = target)
    (hsupplied : Supplied spells defaults entries key (valuesAt members key))
    (hentry : ∀ tree, (key, tree) ∈ entries ↔ tree = wireForm target value)
    (hdefault : (key, wireForm target value) ∈ defaults → value = default) :
    Defaulted (meanings means members) key target default value := by
  have hmem := (hentry _).2 rfl
  rw [defaulted_meanings_iff]
  generalize valuesAt members key = texts at hsupplied
  cases hsupplied with
  | @written tree text hwritten hspells =>
      rw [(hentry tree).1 hwritten, htarget] at hspells
      exact .inr ⟨text, rfl, (hmeans _ _ _ hspells).1⟩
  | @omitted tree hwritten homitted =>
      rw [(hentry tree).1 hwritten] at homitted
      exact .inl ⟨rfl, hdefault homitted⟩
  | absent habsent => exact absurd (List.mem_map_of_mem hmem) habsent
  | null habsent => exact absurd (List.mem_map_of_mem hmem) habsent

/-- A key that the wire form may lack is given its value, and nothing or null where it is
lacking. -/
theorem optional_of_supplied {value : Option target.Value} (htarget : entryTarget key = target)
    (hsupplied : Supplied spells defaults entries key (valuesAt members key))
    (hentry : ∀ tree, (key, tree) ∈ entries ↔ ∃ present, value = some present ∧
      tree = wireForm target present)
    (hdefault : ∀ tree, (key, tree) ∉ defaults)
    (hnull : means nullText (.optional target) none) :
    Defaulted (meanings means members) key (.optional target) none value := by
  have hnone (habsent : key ∉ entries.map Prod.fst) : value = none := by
    cases value with
    | none => rfl
    | some present =>
        have hmem := (hentry _).2 ⟨present, rfl, rfl⟩
        exact absurd (List.mem_map_of_mem hmem) habsent
  rw [defaulted_meanings_iff]
  generalize valuesAt members key = texts at hsupplied
  cases hsupplied with
  | @written tree text hwritten hspells =>
      obtain ⟨present, rfl, rfl⟩ := (hentry tree).1 hwritten
      rw [htarget] at hspells
      exact .inr ⟨text, rfl, (hmeans _ _ _ hspells).2⟩
  | omitted _ homitted => exact absurd homitted (hdefault _)
  | absent habsent => exact .inl ⟨rfl, hnone habsent⟩
  | null habsent =>
      refine .inr ⟨nullText, rfl, ?_⟩
      rw [hnone habsent]
      exact hnull

/-- An object that gives each key of a type its value of the wire form describes the type. -/
theorem type_describes_of_supplied {kind : Kind} {type : GoType}
    (hentries : type.toJson = .object entries)
    (hkind : Shape.HasKind entries (.variant kind))
    (hsupplied : ∀ key ∈ (Shape.variant kind).keys,
      Supplied spells (Shape.variant kind).defaults entries key (valuesAt members key))
    (hnull : ∀ target, means nullText (.optional target) none) :
    (Shape.variant kind).Describes (meanings means members) type := by
  cases type with
  | named path name =>
      cases hentries
      obtain rfl := eq_of_hasKind hkind (by simp [kindKey])
      exact ⟨path, name, rfl,
        optional_of_supplied hmeans rfl (hsupplied "package" (by decide))
          (by simp [wireForm, kindKey]) (by simp [Shape.defaults]) (hnull _),
        required_of_supplied hmeans rfl (hsupplied "name" (by decide))
          (by simp [wireForm, kindKey]) (by simp [Shape.defaults])⟩
  | pointer elem =>
      cases hentries
      obtain rfl := eq_of_hasKind hkind (by simp [kindKey])
      exact ⟨elem, rfl,
        required_of_supplied hmeans rfl (hsupplied "elem" (by decide))
          (by simp [wireForm, kindKey]) (by simp [Shape.defaults])⟩
  | array len elem =>
      cases hentries
      obtain rfl := eq_of_hasKind hkind (by simp [kindKey])
      exact ⟨len, elem, rfl,
        optional_of_supplied hmeans rfl (hsupplied "len" (by decide))
          (by simp [wireForm, kindKey]) (by simp [Shape.defaults]) (hnull _),
        required_of_supplied hmeans rfl (hsupplied "elem" (by decide))
          (by simp [wireForm, kindKey]) (by simp [Shape.defaults])⟩
  | map key value =>
      cases hentries
      obtain rfl := eq_of_hasKind hkind (by simp [kindKey])
      exact ⟨key, value, rfl,
        required_of_supplied hmeans rfl (hsupplied "key" (by decide))
          (by simp [wireForm, kindKey]) (by simp [Shape.defaults]),
        required_of_supplied hmeans rfl (hsupplied "value" (by decide))
          (by simp [wireForm, kindKey]) (by simp [Shape.defaults])⟩
  | chan dir elem =>
      cases hentries
      obtain rfl := eq_of_hasKind hkind (by simp [kindKey])
      have hboth : dir.name = "both" → dir = .both := by
        cases dir <;> simp [ChanDir.name]
      exact ⟨dir, elem, rfl,
        defaulted_of_supplied hmeans rfl (hsupplied "dir" (by decide))
          (by simp [wireForm, kindKey]) (by simpa [Shape.defaults, wireForm] using hboth),
        required_of_supplied hmeans rfl (hsupplied "elem" (by decide))
          (by simp [wireForm, kindKey]) (by simp [Shape.defaults])⟩
  | func params results variadic =>
      cases hentries
      obtain rfl := eq_of_hasKind hkind (by simp [kindKey, signatureEntries])
      exact ⟨params, results, variadic, rfl,
        defaulted_of_supplied hmeans rfl (hsupplied "params" (by decide))
          (by simp [wireForm, kindKey, signatureEntries]) (by simp [Shape.defaults, wireForm]),
        defaulted_of_supplied hmeans rfl (hsupplied "results" (by decide))
          (by simp [wireForm, kindKey, signatureEntries]) (by simp [Shape.defaults, wireForm]),
        optional_of_supplied hmeans rfl (hsupplied "variadic" (by decide))
          (by simp [wireForm, kindKey, signatureEntries]) (by simp [Shape.defaults]) (hnull _)⟩
  | struct fields =>
      cases hentries
      obtain rfl := eq_of_hasKind hkind (by simp [kindKey])
      exact ⟨fields, rfl,
        defaulted_of_supplied hmeans rfl (hsupplied "fields" (by decide))
          (by simp [wireForm, kindKey]) (by simp [Shape.defaults, wireForm])⟩
  | interface methods =>
      cases hentries
      obtain rfl := eq_of_hasKind hkind (by simp [kindKey])
      exact ⟨methods, rfl,
        defaulted_of_supplied hmeans rfl (hsupplied "methods" (by decide))
          (by simp [wireForm, kindKey]) (by simp [Shape.defaults, wireForm])⟩
  | predeclared name =>
      cases hentries
      obtain rfl := eq_of_hasKind hkind (by simp [kindKey])
      exact ⟨name, rfl,
        required_of_supplied hmeans rfl (hsupplied "name" (by decide))
          (by simp [wireForm, kindKey]) (by simp [Shape.defaults])⟩

/-- An object that gives each key its value of the wire form describes the value. -/
theorem describes_of_supplied {value : shape.target.Value}
    (hentries : wireForm shape.target value = .object entries) (hkind : shape.HasKind entries)
    (hsupplied : ∀ key ∈ shape.keys,
      Supplied spells shape.defaults entries key (valuesAt members key))
    (hnull : ∀ target, means nullText (.optional target) none) :
    shape.Describes (meanings means members) value := by
  cases shape with
  | package =>
      cases hentries
      exact ⟨required_of_supplied hmeans rfl (hsupplied "name" (by decide)) (by simp [wireForm])
          (by simp [Shape.defaults]),
        defaulted_of_supplied hmeans rfl (hsupplied "interfaces" (by decide)) (by simp [wireForm])
          (by simp [Shape.defaults, wireForm])⟩
  | interface =>
      cases hentries
      exact ⟨required_of_supplied hmeans rfl (hsupplied "name" (by decide)) (by simp [wireForm])
          (by simp [Shape.defaults]),
        defaulted_of_supplied hmeans rfl (hsupplied "methods" (by decide)) (by simp [wireForm])
          (by simp [Shape.defaults, wireForm])⟩
  | method =>
      cases hentries
      exact ⟨required_of_supplied hmeans rfl (hsupplied "name" (by decide))
          (by simp [wireForm, signatureEntries]) (by simp [Shape.defaults]),
        defaulted_of_supplied hmeans rfl (hsupplied "params" (by decide))
          (by simp [wireForm, signatureEntries]) (by simp [Shape.defaults, wireForm]),
        defaulted_of_supplied hmeans rfl (hsupplied "results" (by decide))
          (by simp [wireForm, signatureEntries]) (by simp [Shape.defaults, wireForm]),
        optional_of_supplied hmeans rfl (hsupplied "variadic" (by decide))
          (by simp [wireForm, signatureEntries]) (by simp [Shape.defaults]) (hnull _)⟩
  | parameter =>
      cases hentries
      exact ⟨defaulted_of_supplied hmeans rfl (hsupplied "name" (by decide)) (by simp [wireForm])
          (by simp [Shape.defaults, wireForm]),
        required_of_supplied hmeans rfl (hsupplied "type" (by decide)) (by simp [wireForm])
          (by simp [Shape.defaults])⟩
  | field =>
      cases hentries
      exact ⟨required_of_supplied hmeans rfl (hsupplied "name" (by decide)) (by simp [wireForm])
          (by simp [Shape.defaults]),
        required_of_supplied hmeans rfl (hsupplied "type" (by decide)) (by simp [wireForm])
          (by simp [Shape.defaults])⟩
  | variant kind => exact type_describes_of_supplied hmeans hentries hkind hsupplied hnull

end Entries

end InterfaceProbe
