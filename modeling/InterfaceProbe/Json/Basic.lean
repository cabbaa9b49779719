/-
# JSON values

A JSON value as a tree.  An object keeps its entries in the order of the text,
repeated keys included, because whether a key may repeat is for the reader of
the object to say.  A number is an integer where 64 bits hold it and a binary64
number otherwise.
-/

import InterfaceProbe.Decimal.Binary64

namespace InterfaceProbe

/-- What a JSON number literal denotes. -/
inductive JsonNumber
  /-- An integer from -2^63 up to below 2^64. -/
  | integer (value : Int)
  /-- Any other number, rounded. -/
  | real (value : Decimal.Binary64)
  deriving DecidableEq, Repr

/-- A JSON value. -/
inductive Json
  | null
  | bool (value : Bool)
  | number (value : JsonNumber)
  | string (value : String)
  | array (items : List Json)
  | object (entries : List (String × Json))
  deriving Inhabited

namespace Json

mutual

/-- How many arrays and objects are open at the innermost place of a value. -/
def depth : Json → Nat
  | .array items => itemsDepth items + 1
  | .object entries => entriesDepth entries + 1
  | _ => 0
termination_by structural value => value

/-- The greatest depth among the items. -/
def itemsDepth : List Json → Nat
  | [] => 0
  | item :: rest => max item.depth (itemsDepth rest)
termination_by structural items => items

/-- The greatest depth among the values of the entries. -/
def entriesDepth : List (String × Json) → Nat
  | [] => 0
  | (_, value) :: rest => max value.depth (entriesDepth rest)
termination_by structural entries => entries

end

/-- A natural number as a JSON value. -/
abbrev int (value : Int) : Json := .number (.integer value)

end Json

end InterfaceProbe
