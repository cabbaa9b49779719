/-
# Package descriptions

A package description names the interfaces that were asked for, the methods of
each and the types in their signatures.  It is what a probe reports and what
every later stage consumes.

Types, parameters, fields and methods refer to each other: a function type
carries parameters, and an interface literal carries methods.  `GoType` is
closed, so a type is always told apart by its constructor and never by the
fields it happens to have.  Nothing here checks that a name is an identifier;
an arbitrary string is a name.
-/

namespace InterfaceProbe

/-- The directions a channel type allows. -/
inductive ChanDir
  | both | recv | send
  deriving DecidableEq, Inhabited, Repr

mutual

/-- A Go type, as far as a method signature can mention it. -/
inductive GoType where
  /-- A declared type; `package` is its import path when it is declared elsewhere. -/
  | named (package : Option String) (name : String)
  | pointer (elem : GoType)
  /-- An array of the given length, or a slice when the length is absent. -/
  | array (len : Option Int64) (elem : GoType)
  | map (key value : GoType)
  | chan (dir : ChanDir) (elem : GoType)
  | func (params results : List Parameter) (variadic : Option Parameter)
  | struct (fields : List Field)
  | interface (methods : List Method)
  /-- A type of the universe scope, such as `int` or `error`. -/
  | predeclared (name : String)

/-- A parameter or a result; the empty name stands for an unnamed one. -/
structure Parameter where
  name : String := ""
  type : GoType

/-- A field of a struct literal. -/
structure Field where
  name : String
  type : GoType

/-- A method of an interface.  The type of `variadic` is that of one trailing argument. -/
structure Method where
  name : String
  params : List Parameter := []
  results : List Parameter := []
  variadic : Option Parameter := none

end

deriving instance BEq for GoType, Parameter, Field, Method
deriving instance Inhabited for GoType, Parameter, Field, Method

/-- A declared interface with its methods in the reported order. -/
structure Interface where
  name : String
  methods : List Method := []
  deriving BEq, Inhabited

/-- A package with the interfaces that were asked for, in the order of the request. -/
structure Package where
  name : String
  interfaces : List Interface := []
  deriving BEq, Inhabited

namespace GoType

/-- A slice is an array without a length. -/
abbrev slice (elem : GoType) : GoType := .array none elem

end GoType

namespace Method

/-- Everything a method's signature declares: parameters, results, then the variadic one. -/
def declared (m : Method) : List Parameter :=
  m.params ++ m.results ++ m.variadic.toList

end Method

/-- Two descriptions are equal when every name, order and option agrees. -/
def Package.same (a b : Package) : Bool := a == b

end InterfaceProbe
