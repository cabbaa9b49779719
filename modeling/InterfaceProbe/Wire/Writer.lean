/-
# The wire form of a description

Every description has one wire form, a JSON value whose keys stand in
declaration order with the kind of a type first.  The optional values that
are absent are left out; lists and names are always written, empty or not.
-/

import InterfaceProbe.Json.Basic
import InterfaceProbe.Wire.Record

namespace InterfaceProbe

/-- An entry for each value present. -/
def optionalEntry (key : String) : Option Json → List (String × Json)
  | none => []
  | some value => [(key, value)]

/-- A parameter with an already written type. -/
def parameterJson (name : String) (type : Json) : Json :=
  .object [("name", .string name), ("type", type)]

/-- The entries of a signature. -/
def signatureEntries (params results : List Json) (variadic : Option Json) :
    List (String × Json) :=
  [("params", .array params), ("results", .array results)] ++ optionalEntry "variadic" variadic

/-- A type with its kind and the entries of that variant. -/
def typeJson (kind : Kind) (entries : List (String × Json)) : Json :=
  .object ((kindKey, .string kind.name) :: entries)

mutual

/-- The wire form of a type. -/
def GoType.toJson : GoType → Json
  | .named package name =>
    typeJson .named (optionalEntry "package" (package.map .string) ++ [("name", .string name)])
  | .pointer elem => typeJson .pointer [("elem", elem.toJson)]
  | .array len elem =>
    typeJson .array
      (optionalEntry "len" (len.map fun n => Json.int n.toInt) ++ [("elem", elem.toJson)])
  | .map key value => typeJson .map [("key", key.toJson), ("value", value.toJson)]
  | .chan dir elem => typeJson .chan [("dir", .string dir.name), ("elem", elem.toJson)]
  | .func params results variadic =>
    typeJson .func
      (signatureEntries (parametersJson params) (parametersJson results) (optionJson variadic))
  | .struct fields => typeJson .struct [("fields", .array (fieldsJson fields))]
  | .interface methods => typeJson .interface [("methods", .array (methodsJson methods))]
  | .predeclared name => typeJson .predeclared [("name", .string name)]
termination_by structural type => type

/-- The wire form of each parameter. -/
def parametersJson : List Parameter → List Json
  | [] => []
  | ⟨name, type⟩ :: rest => parameterJson name type.toJson :: parametersJson rest
termination_by structural params => params

/-- The wire form of an optional parameter. -/
def optionJson : Option Parameter → Option Json
  | none => none
  | some ⟨name, type⟩ => some (parameterJson name type.toJson)
termination_by structural param => param

/-- The wire form of each field. -/
def fieldsJson : List Field → List Json
  | [] => []
  | ⟨name, type⟩ :: rest => parameterJson name type.toJson :: fieldsJson rest
termination_by structural fields => fields

/-- The wire form of each method. -/
def methodsJson : List Method → List Json
  | [] => []
  | ⟨name, params, results, variadic⟩ :: rest =>
    .object (("name", .string name) ::
      signatureEntries (parametersJson params) (parametersJson results) (optionJson variadic)) ::
      methodsJson rest
termination_by structural methods => methods

end

/-- The wire form of a parameter. -/
def Parameter.toJson (p : Parameter) : Json := parameterJson p.name p.type.toJson

/-- The wire form of a field. -/
def Field.toJson (f : Field) : Json := parameterJson f.name f.type.toJson

/-- The wire form of a method. -/
def Method.toJson (m : Method) : Json :=
  .object (("name", .string m.name) ::
    signatureEntries (m.params.map Parameter.toJson) (m.results.map Parameter.toJson)
      (m.variadic.map Parameter.toJson))

/-- The wire form of an interface. -/
def Interface.toJson (i : Interface) : Json :=
  .object [("name", .string i.name), ("methods", .array (i.methods.map Method.toJson))]

/-- The wire form of a package. -/
def Package.toJson (p : Package) : Json :=
  .object [("name", .string p.name), ("interfaces", .array (p.interfaces.map Interface.toJson))]

@[simp] theorem parametersJson_eq_map (params : List Parameter) :
    parametersJson params = params.map Parameter.toJson := by
  induction params with
  | nil => rfl
  | cons p rest ih => cases p; simp [parametersJson, Parameter.toJson, ih]

@[simp] theorem optionJson_eq_map (param : Option Parameter) :
    optionJson param = param.map Parameter.toJson := by
  cases param with
  | none => rfl
  | some p => cases p; rfl

@[simp] theorem fieldsJson_eq_map (fields : List Field) :
    fieldsJson fields = fields.map Field.toJson := by
  induction fields with
  | nil => rfl
  | cons f rest ih => cases f; simp [fieldsJson, Field.toJson, ih]

@[simp] theorem methodsJson_eq_map (methods : List Method) :
    methodsJson methods = methods.map Method.toJson := by
  induction methods with
  | nil => rfl
  | cons m rest ih => cases m; simp [methodsJson, Method.toJson, ih]

end InterfaceProbe
