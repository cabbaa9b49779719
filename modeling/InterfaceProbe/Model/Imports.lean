/-
# Import paths of a description

`Package.imports` lists every import path that a named type of the package
mentions, at any depth of any parameter, result, field or literal.  The list
is strictly increasing, so it names each path once and does not depend on the
order in which the paths were met.
-/

import InterfaceProbe.Model.Basic

namespace InterfaceProbe

mutual

/-- The import paths a type mentions, in the order of its text. -/
def GoType.paths : GoType → List String
  | .named package _ => package.toList
  | .pointer elem => elem.paths
  | .array _ elem => elem.paths
  | .map key value => key.paths ++ value.paths
  | .chan _ elem => elem.paths
  | .func params results variadic =>
    parameterPaths params ++ parameterPaths results ++ optionPaths variadic
  | .struct fields => fieldPaths fields
  | .interface methods => methodPaths methods
  | .predeclared _ => []
termination_by structural type => type

/-- The import paths that the types of the parameters mention. -/
def parameterPaths : List Parameter → List String
  | [] => []
  | ⟨_, type⟩ :: rest => type.paths ++ parameterPaths rest
termination_by structural params => params

/-- The import paths that an optional parameter's type mentions. -/
def optionPaths : Option Parameter → List String
  | none => []
  | some ⟨_, type⟩ => type.paths
termination_by structural param => param

/-- The import paths that the types of the fields mention. -/
def fieldPaths : List Field → List String
  | [] => []
  | ⟨_, type⟩ :: rest => type.paths ++ fieldPaths rest
termination_by structural fields => fields

/-- The import paths that the signatures of the methods mention. -/
def methodPaths : List Method → List String
  | [] => []
  | ⟨_, params, results, variadic⟩ :: rest =>
    parameterPaths params ++ parameterPaths results ++ optionPaths variadic ++
      methodPaths rest
termination_by structural methods => methods

end

/-- The import paths that a method's signature mentions. -/
def Method.paths (m : Method) : List String := m.declared.flatMap fun p => p.type.paths

/-- Puts a text into a strictly increasing list, unless it is there already. -/
def insertIncreasing (text : String) : List String → List String
  | [] => [text]
  | head :: rest =>
    if text < head then text :: head :: rest
    else if text = head then head :: rest
    else head :: insertIncreasing text rest

/-- The strictly increasing list with the given members. -/
def increasing (texts : List String) : List String := texts.foldr insertIncreasing []

/-- Every import path that the package's interfaces mention, once each and in byte order. -/
def Package.imports (p : Package) : List String :=
  increasing (p.interfaces.flatMap fun i => i.methods.flatMap Method.paths)

@[simp] theorem parameterPaths_eq_flatMap (params : List Parameter) :
    parameterPaths params = params.flatMap fun p => p.type.paths := by
  induction params with
  | nil => rfl
  | cons p rest ih => cases p; simp [parameterPaths, ih]

@[simp] theorem optionPaths_eq_flatMap (param : Option Parameter) :
    optionPaths param = param.toList.flatMap fun p => p.type.paths := by
  cases param with
  | none => rfl
  | some p => cases p; simp [optionPaths]

@[simp] theorem fieldPaths_eq_flatMap (fields : List Field) :
    fieldPaths fields = fields.flatMap fun f => f.type.paths := by
  induction fields with
  | nil => rfl
  | cons f rest ih => cases f; simp [fieldPaths, ih]

@[simp] theorem methodPaths_eq_flatMap (methods : List Method) :
    methodPaths methods = methods.flatMap Method.paths := by
  induction methods with
  | nil => rfl
  | cons m rest ih => cases m; simp [methodPaths, Method.paths, Method.declared, ih]

end InterfaceProbe
