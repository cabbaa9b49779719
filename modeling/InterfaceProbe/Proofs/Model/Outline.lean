/-
# Outlines of types

The outline of a type has the printed text of each leaf in its place.  Two types
have one outline exactly if they are built alike, with the same lengths,
directions, names, lists and variadic parameters, and differ at most in leaves
that are printed alike.

A type is legible if its names are identifiers.  A parameter may go without a
name, and what the local package goes by does not matter, because it is not
printed.
-/

import InterfaceProbe.Proofs.Model.Structure
import InterfaceProbe.Proofs.Model.Words

namespace InterfaceProbe

section

variable (qualifiers : Qualifiers) (localPackage : String)

mutual

/-- The type with the printed text of each leaf in its place. -/
def GoType.outline : GoType → GoType
  | .named package name => .predeclared (spelledName qualifiers localPackage package name)
  | .pointer elem => .pointer elem.outline
  | .array len elem => .array len elem.outline
  | .map key value => .map key.outline value.outline
  | .chan dir elem => .chan dir elem.outline
  | .func params results variadic =>
    .func (parameterOutlines params) (parameterOutlines results) (optionOutline variadic)
  | .struct fields => .struct (fieldOutlines fields)
  | .interface methods => .interface (methodOutlines methods)
  | .predeclared name => .predeclared name
termination_by structural type => type

/-- Each parameter with the outline of its type. -/
def parameterOutlines : List Parameter → List Parameter
  | [] => []
  | ⟨name, type⟩ :: rest => ⟨name, type.outline⟩ :: parameterOutlines rest
termination_by structural params => params

/-- An optional parameter with the outline of its type. -/
def optionOutline : Option Parameter → Option Parameter
  | none => none
  | some ⟨name, type⟩ => some ⟨name, type.outline⟩
termination_by structural param => param

/-- Each field with the outline of its type. -/
def fieldOutlines : List Field → List Field
  | [] => []
  | ⟨name, type⟩ :: rest => ⟨name, type.outline⟩ :: fieldOutlines rest
termination_by structural fields => fields

/-- Each method with the outlines of the types it declares. -/
def methodOutlines : List Method → List Method
  | [] => []
  | ⟨name, params, results, variadic⟩ :: rest =>
    ⟨name, parameterOutlines params, parameterOutlines results, optionOutline variadic⟩ ::
      methodOutlines rest
termination_by structural methods => methods

end

/-- The parameter with the outline of its type. -/
def Parameter.outline (p : Parameter) : Parameter :=
  ⟨p.name, p.type.outline qualifiers localPackage⟩

/-- The field with the outline of its type. -/
def Field.outline (f : Field) : Field := ⟨f.name, f.type.outline qualifiers localPackage⟩

/-- The method with the outlines of the types it declares. -/
def Method.outline (m : Method) : Method where
  name := m.name
  params := m.params.map (Parameter.outline qualifiers localPackage)
  results := m.results.map (Parameter.outline qualifiers localPackage)
  variadic := m.variadic.map (Parameter.outline qualifiers localPackage)

@[simp] theorem parameterOutlines_eq_map (params : List Parameter) :
    parameterOutlines qualifiers localPackage params =
      params.map (Parameter.outline qualifiers localPackage) := by
  induction params with
  | nil => rfl
  | cons p rest ih => cases p; simp [parameterOutlines, Parameter.outline, ih]

@[simp] theorem optionOutline_eq_map (param : Option Parameter) :
    optionOutline qualifiers localPackage param =
      param.map (Parameter.outline qualifiers localPackage) := by
  cases param with
  | none => rfl
  | some p => cases p; rfl

@[simp] theorem fieldOutlines_eq_map (fields : List Field) :
    fieldOutlines qualifiers localPackage fields =
      fields.map (Field.outline qualifiers localPackage) := by
  induction fields with
  | nil => rfl
  | cons f rest ih => cases f; simp [fieldOutlines, Field.outline, ih]

@[simp] theorem methodOutlines_eq_map (methods : List Method) :
    methodOutlines qualifiers localPackage methods =
      methods.map (Method.outline qualifiers localPackage) := by
  induction methods with
  | nil => rfl
  | cons m rest ih => cases m; simp [methodOutlines, Method.outline, ih]

/-- Types whose names are identifiers. -/
inductive GoType.Legible : GoType → Prop
  | named {package : Option String} {name : String} : IsIdentifier name →
      (∀ path ∈ package, path ≠ localPackage → IsIdentifier (qualifiers.effective path)) →
        Legible (.named package name)
  | pointer {elem : GoType} : Legible elem → Legible (.pointer elem)
  | array {len : Option Int64} {elem : GoType} : Legible elem → Legible (.array len elem)
  | map {key value : GoType} : Legible key → Legible value → Legible (.map key value)
  | chan {dir : ChanDir} {elem : GoType} : Legible elem → Legible (.chan dir elem)
  | func {params results : List Parameter} {variadic : Option Parameter} :
      (∀ p ∈ params ++ results ++ variadic.toList, p.name ≠ "" → IsIdentifier p.name) →
        (∀ p ∈ params ++ results ++ variadic.toList, Legible p.type) →
          Legible (.func params results variadic)
  | struct {fields : List Field} : (∀ f ∈ fields, IsIdentifier f.name) →
      (∀ f ∈ fields, Legible f.type) → Legible (.struct fields)
  | interface {methods : List Method} : (∀ m ∈ methods, IsIdentifier m.name) →
      (∀ m ∈ methods, ∀ p ∈ m.declared, p.name ≠ "" → IsIdentifier p.name) →
        (∀ m ∈ methods, ∀ p ∈ m.declared, Legible p.type) → Legible (.interface methods)
  | predeclared {name : String} : IsIdentifier name → Legible (.predeclared name)

/-- Parameters that are unnamed or named by an identifier, of legible types. -/
structure Parameter.Legible (p : Parameter) : Prop where
  name : p.name ≠ "" → IsIdentifier p.name
  type : p.type.Legible qualifiers localPackage

/-- Methods that declare legible parameters.  Their own name is no part of the signature. -/
def Method.Legible (m : Method) : Prop := ∀ p ∈ m.declared, p.Legible qualifiers localPackage

end

section Outlines

variable {qualifiers : Qualifiers} {localPackage : String}

variable (qualifiers localPackage) in
/-- Types that are spelled as their outlines are. -/
def GoType.SpelledByOutline (type : GoType) : Prop :=
  (type.outline qualifiers localPackage).spelling qualifiers localPackage =
    type.spelling qualifiers localPackage

theorem spelledParameters_outline {params : List Parameter}
    (h : ∀ p ∈ params, p.type.SpelledByOutline qualifiers localPackage) :
    spelledParameters qualifiers localPackage
        (params.map (Parameter.outline qualifiers localPackage)) =
      spelledParameters qualifiers localPackage params := by
  simp only [spelledParameters_eq_map, List.map_map]
  exact List.map_congr_left fun p hp => Prod.ext rfl (h p hp)

theorem spelledOption_outline {param : Option Parameter}
    (h : ∀ p ∈ param, p.type.SpelledByOutline qualifiers localPackage) :
    spelledOption qualifiers localPackage
        (param.map (Parameter.outline qualifiers localPackage)) =
      spelledOption qualifiers localPackage param := by
  cases param with
  | none => rfl
  | some p =>
      simp only [spelledOption_eq_map, Option.map_some]
      exact congrArg some (Prod.ext rfl (h p rfl))

theorem signature_outline_of_declared {m : Method}
    (h : ∀ p ∈ m.declared, p.type.SpelledByOutline qualifiers localPackage) :
    (m.outline qualifiers localPackage).signature qualifiers localPackage =
      m.signature qualifiers localPackage := by
  obtain ⟨hparams, hresults, hvariadic⟩ := Method.forall_mem_declared.1 h
  simp only [Method.signature, Method.outline]
  rw [spelledParameters_outline hparams, spelledParameters_outline hresults,
    spelledOption_outline hvariadic]

/-- An outline is spelled as its type, so types with one outline have one spelling. -/
theorem GoType.spelling_outline (type : GoType) :
    type.SpelledByOutline qualifiers localPackage := by
  induction type using GoType.induct with
  | named | predeclared => rfl
  | pointer elem ih => exact congrArg ("*" ++ ·) ih
  | array len elem ih =>
      cases len with
      | none => exact congrArg ("[]" ++ ·) ih
      | some len => exact congrArg ("[" ++ Decimal.signedNumeral len.toInt ++ "]" ++ ·) ih
  | map key value ihkey ihvalue =>
      simp only [SpelledByOutline, outline, spelling] at ihkey ihvalue ⊢
      rw [ihkey, ihvalue]
  | chan dir elem ih => exact congrArg (spelledChan dir) ih
  | func params results variadic ihparams ihresults ihvariadic =>
      simp only [SpelledByOutline, outline, spelling, parameterOutlines_eq_map,
        optionOutline_eq_map]
      rw [spelledParameters_outline ihparams, spelledParameters_outline ihresults,
        spelledOption_outline ihvariadic]
  | struct fields ih =>
      simp only [SpelledByOutline, outline, spelling, fieldOutlines_eq_map, spelledFields_eq_map,
        List.map_map]
      exact congrArg (spelledLiteral "struct") (List.map_congr_left fun f hf =>
        congrArg (f.name ++ " " ++ ·) (ih f hf))
  | interface methods ih =>
      simp only [SpelledByOutline, outline, spelling, methodOutlines_eq_map, spelledMethods_eq_map,
        List.map_map]
      exact congrArg (spelledLiteral "interface") (List.map_congr_left fun m hm =>
        congrArg (m.name ++ ·) (signature_outline_of_declared (ih m hm)))

theorem Method.signature_outline (m : Method) :
    (m.outline qualifiers localPackage).signature qualifiers localPackage =
      m.signature qualifiers localPackage :=
  signature_outline_of_declared fun p _ => p.type.spelling_outline

end Outlines

end InterfaceProbe
