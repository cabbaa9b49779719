/-
# The structure of types and signatures

Types, parameters, fields and methods refer to each other, and an induction over
them needs one hypothesis for each list on the way.  `GoType.induct` packs that
up: whoever proves something of types sees the types right below a type, wherever
they stand, and nothing else.  `GoType.Contains` follows the same places down to any
depth.

A signature has one list between its first parentheses.  `arguments` is that
list, with the variadic parameter as a marked last member.
-/

import InterfaceProbe.Model.Imports
import InterfaceProbe.Model.Spelling

namespace InterfaceProbe

/-- Induction over types.  The types below a function type are those of its parameters and
results, the types below an interface literal those that its methods declare. -/
@[elab_as_elim]
theorem GoType.induct {motive : GoType → Prop}
    (named : ∀ package name, motive (.named package name))
    (pointer : ∀ elem, motive elem → motive (.pointer elem))
    (array : ∀ len elem, motive elem → motive (.array len elem))
    (map : ∀ key value, motive key → motive value → motive (.map key value))
    (chan : ∀ dir elem, motive elem → motive (.chan dir elem))
    (func : ∀ params results variadic, (∀ p ∈ params, motive p.type) →
      (∀ p ∈ results, motive p.type) → (∀ p ∈ variadic, motive p.type) →
        motive (.func params results variadic))
    (struct : ∀ fields, (∀ f ∈ fields, motive f.type) → motive (.struct fields))
    (interface : ∀ methods, (∀ m ∈ methods, ∀ p ∈ m.declared, motive p.type) →
      motive (.interface methods))
    (predeclared : ∀ name, motive (.predeclared name)) (type : GoType) : motive type := by
  apply @GoType.rec motive (fun p => motive p.type) (fun f => motive f.type)
    (fun m => ∀ p ∈ m.declared, motive p.type) (fun params => ∀ p ∈ params, motive p.type)
    (fun variadic => ∀ p ∈ variadic, motive p.type) (fun fields => ∀ f ∈ fields, motive f.type)
    (fun methods => ∀ m ∈ methods, ∀ p ∈ m.declared, motive p.type)
    named pointer array map chan func struct interface predeclared
  · exact fun _ _ htype => htype
  · exact fun _ _ htype => htype
  · intro _ params results variadic hparams hresults hvariadic p hp
    rcases List.mem_append.1 hp with hp | hp
    · exact (List.mem_append.1 hp).elim (hparams p) (hresults p)
    · exact hvariadic p (Option.mem_toList.1 hp)
  · exact List.forall_mem_nil _
  · exact fun _ _ hhead htail => List.forall_mem_cons.2 ⟨hhead, htail⟩
  · exact fun _ h => nomatch h
  · rintro _ htype _ ⟨⟩
    exact htype
  · exact List.forall_mem_nil _
  · exact fun _ _ hhead htail => List.forall_mem_cons.2 ⟨hhead, htail⟩
  · exact List.forall_mem_nil _
  · exact fun _ _ hhead htail => List.forall_mem_cons.2 ⟨hhead, htail⟩

theorem Method.forall_mem_declared {m : Method} {condition : Parameter → Prop} :
    (∀ p ∈ m.declared, condition p) ↔
      (∀ p ∈ m.params, condition p) ∧ (∀ p ∈ m.results, condition p) ∧
        ∀ p ∈ m.variadic, condition p := by
  simp only [declared, List.forall_mem_append, Option.mem_toList, and_assoc]
  exact Iff.rfl

/-- A type that stands in another one: it is the whole of it, or it stands in one of the types
right below. -/
inductive GoType.Contains (part : GoType) : GoType → Prop
  | whole : Contains part part
  | pointer {elem : GoType} : Contains part elem → Contains part (.pointer elem)
  | array {len : Option Int64} {elem : GoType} :
      Contains part elem → Contains part (.array len elem)
  | key {key value : GoType} : Contains part key → Contains part (.map key value)
  | value {key value : GoType} : Contains part value → Contains part (.map key value)
  | chan {dir : ChanDir} {elem : GoType} : Contains part elem → Contains part (.chan dir elem)
  | param {params results : List Parameter} {variadic : Option Parameter} {p : Parameter} :
      p ∈ params → Contains part p.type → Contains part (.func params results variadic)
  | result {params results : List Parameter} {variadic : Option Parameter} {p : Parameter} :
      p ∈ results → Contains part p.type → Contains part (.func params results variadic)
  | variadic {params results : List Parameter} {variadic : Option Parameter} {p : Parameter} :
      p ∈ variadic → Contains part p.type → Contains part (.func params results variadic)
  | field {fields : List Field} {f : Field} :
      f ∈ fields → Contains part f.type → Contains part (.struct fields)
  | method {methods : List Method} {m : Method} {p : Parameter} :
      m ∈ methods → p ∈ m.declared → Contains part p.type → Contains part (.interface methods)

section Signatures

/-- The members of the list between the first parentheses of a signature: the parameters and then
the variadic one, which alone is marked. -/
def arguments (params : List Parameter) (variadic : Option Parameter) : List (Bool × Parameter) :=
  params.map (false, ·) ++ variadic.toList.map (true, ·)

theorem forall_mem_arguments {params : List Parameter} {variadic : Option Parameter}
    {condition : Parameter → Prop} :
    (∀ argument ∈ arguments params variadic, condition argument.2) ↔
      (∀ p ∈ params, condition p) ∧ ∀ p ∈ variadic, condition p := by
  simp [arguments]

variable (qualifiers : Qualifiers) (localPackage : String)

/-- A member of the list, with three dots before its type if it is marked. -/
def spelledArgument (argument : Bool × Parameter) : String :=
  let type := argument.2.type.spelling qualifiers localPackage
  if argument.1 then spelledVariadic argument.2.name type
  else spelledParameter argument.2.name type

theorem spelledSignature_eq (params results : List Parameter) (variadic : Option Parameter) :
    spelledSignature (spelledParameters qualifiers localPackage params)
        (spelledParameters qualifiers localPackage results)
        (spelledOption qualifiers localPackage variadic) =
      "(" ++ separated ", "
          ((arguments params variadic).map (spelledArgument qualifiers localPackage)) ++ ")" ++
        spelledResults (spelledParameters qualifiers localPackage results) := by
  cases variadic <;>
    simp [spelledSignature, arguments, spelledArgument, Function.comp_def]

end Signatures

/-- Results that are more than one bare type stand between parentheses, as parameters do. -/
theorem spelledResults_cases (results : List Parameter) :
    results = [] ∨ (∃ type, results = [⟨"", type⟩]) ∨ ∀ qualifiers localPackage,
      spelledResults (spelledParameters qualifiers localPackage results) =
        " (" ++ separated ", "
          ((arguments results none).map (spelledArgument qualifiers localPackage)) ++ ")" := by
  match results with
  | [] => exact Or.inl rfl
  | [⟨name, type⟩] =>
      by_cases hname : name = ""
      · exact Or.inr (Or.inl ⟨type, by rw [hname]⟩)
      · right; right
        simp [spelledResults, hname, arguments, spelledArgument, separated]
  | _ :: _ :: _ =>
      right; right
      simp [spelledResults, arguments, spelledArgument, Function.comp_def]

end InterfaceProbe
