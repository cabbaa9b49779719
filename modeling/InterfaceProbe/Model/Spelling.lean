/-
# Go spelling of types and signatures

A type is spelled relative to a reading site: `Qualifiers` gives the name a
package goes by there, and types of the local package stand unqualified.  A
package without a name of its own goes by the last component of its path.

The spelling is plain text.  No identifier is checked and no parenthesis is
added, so a spelling of arbitrary names need not be a Go type.
-/

import InterfaceProbe.Decimal.Numeral
import InterfaceProbe.Model.Basic
import InterfaceProbe.Text.Separated

namespace InterfaceProbe

/-- The name each import path goes by at the reading site, where it has one. -/
abbrev Qualifiers := String → Option String

namespace Qualifiers

/-- No package has a name of its own. -/
def none : Qualifiers := fun _ => Option.none

/-- The names listed, the first entry of a path counting. -/
def ofList (entries : List (String × String)) : Qualifiers := fun path => entries.lookup path

end Qualifiers

/-- The part of a path after its last slash. -/
def lastComponent (path : String) : String :=
  String.ofList (path.toList.reverse.takeWhile (· != '/')).reverse

/-- The name a package goes by: its own, else the last component of its path. -/
def Qualifiers.effective (qualifiers : Qualifiers) (path : String) : String :=
  (qualifiers path).getD (lastComponent path)

/-- A parameter in a list: its name, if any, a blank and its type. -/
def spelledParameter (name type : String) : String :=
  if name.isEmpty then type else name ++ " " ++ type

/-- A variadic parameter is marked by three dots before its type. -/
def spelledVariadic (name type : String) : String :=
  spelledParameter name ("..." ++ type)

/-- A result list: nothing at all, one bare unnamed type, or a parenthesised list. -/
def spelledResults : List (String × String) → String
  | [] => ""
  | [(name, type)] =>
    if name.isEmpty then " " ++ type else " (" ++ spelledParameter name type ++ ")"
  | results => " (" ++ separated ", " (results.map fun r => spelledParameter r.1 r.2) ++ ")"

/-- A signature from already spelled parameters, results and variadic parameter. -/
def spelledSignature (params results : List (String × String))
    (variadic : Option (String × String)) : String :=
  let arguments := params.map (fun p => spelledParameter p.1 p.2) ++
    (variadic.map fun v => spelledVariadic v.1 v.2).toList
  "(" ++ separated ", " arguments ++ ")" ++ spelledResults results

/-- A braced literal: the keyword alone with empty braces, or its members between semicolons. -/
def spelledLiteral (keyword : String) : List String → String
  | [] => keyword ++ "\x7b\x7d"
  | members => keyword ++ "\x7b " ++ separated "; " members ++ " \x7d"

/-- A channel type; an arrow stands on the side of the keyword that data moves to or from. -/
def spelledChan (dir : ChanDir) (elem : String) : String :=
  match dir with
  | .both => "chan " ++ elem
  | .recv => "<-chan " ++ elem
  | .send => "chan<- " ++ elem

/-- A declared type: unqualified without a package or in the local one. -/
def spelledName (qualifiers : Qualifiers) (localPackage : String) (package : Option String)
    (name : String) : String :=
  match package with
  | none => name
  | some path =>
    if path = localPackage then name else qualifiers.effective path ++ "." ++ name

section

variable (qualifiers : Qualifiers) (localPackage : String)

mutual

/-- The Go spelling of a type. -/
def GoType.spelling : GoType → String
  | .named package name => spelledName qualifiers localPackage package name
  | .pointer elem => "*" ++ elem.spelling
  | .array none elem => "[]" ++ elem.spelling
  | .array (some len) elem => "[" ++ Decimal.signedNumeral len.toInt ++ "]" ++ elem.spelling
  | .map key value => "map[" ++ key.spelling ++ "]" ++ value.spelling
  | .chan dir elem => spelledChan dir elem.spelling
  | .func params results variadic =>
    "func" ++ spelledSignature (spelledParameters params) (spelledParameters results)
      (spelledOption variadic)
  | .struct fields => spelledLiteral "struct" (spelledFields fields)
  | .interface methods => spelledLiteral "interface" (spelledMethods methods)
  | .predeclared name => name
termination_by structural type => type

/-- Each parameter's name with the spelling of its type. -/
def spelledParameters : List Parameter → List (String × String)
  | [] => []
  | ⟨name, type⟩ :: rest => (name, type.spelling) :: spelledParameters rest
termination_by structural params => params

/-- An optional parameter's name with the spelling of its type. -/
def spelledOption : Option Parameter → Option (String × String)
  | none => none
  | some ⟨name, type⟩ => some (name, type.spelling)
termination_by structural param => param

/-- Each field as its name, a blank and its type. -/
def spelledFields : List Field → List String
  | [] => []
  | ⟨name, type⟩ :: rest => (name ++ " " ++ type.spelling) :: spelledFields rest
termination_by structural fields => fields

/-- Each method of a literal as its name followed by its signature. -/
def spelledMethods : List Method → List String
  | [] => []
  | ⟨name, params, results, variadic⟩ :: rest =>
    (name ++ spelledSignature (spelledParameters params) (spelledParameters results)
      (spelledOption variadic)) :: spelledMethods rest
termination_by structural methods => methods

end

/-- The spelling of a method without its name. -/
def Method.signature (m : Method) : String :=
  spelledSignature (spelledParameters qualifiers localPackage m.params)
    (spelledParameters qualifiers localPackage m.results)
    (spelledOption qualifiers localPackage m.variadic)

@[simp] theorem spelledParameters_eq_map (params : List Parameter) :
    spelledParameters qualifiers localPackage params =
      params.map fun p => (p.name, p.type.spelling qualifiers localPackage) := by
  induction params with
  | nil => rfl
  | cons p rest ih => cases p; simp [spelledParameters, ih]

@[simp] theorem spelledOption_eq_map (param : Option Parameter) :
    spelledOption qualifiers localPackage param =
      param.map fun p => (p.name, p.type.spelling qualifiers localPackage) := by
  cases param with
  | none => rfl
  | some p => cases p; rfl

@[simp] theorem spelledFields_eq_map (fields : List Field) :
    spelledFields qualifiers localPackage fields =
      fields.map fun f => f.name ++ " " ++ f.type.spelling qualifiers localPackage := by
  induction fields with
  | nil => rfl
  | cons f rest ih => cases f; simp [spelledFields, ih]

@[simp] theorem spelledMethods_eq_map (methods : List Method) :
    spelledMethods qualifiers localPackage methods =
      methods.map fun m => m.name ++ m.signature qualifiers localPackage := by
  induction methods with
  | nil => rfl
  | cons m rest ih => cases m; simp [spelledMethods, Method.signature, ih]

end

/-- The spelling away from any reading site: no names of their own, no local package. -/
def GoType.display (type : GoType) : String := type.spelling Qualifiers.none ""

end InterfaceProbe
