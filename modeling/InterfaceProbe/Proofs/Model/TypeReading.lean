/-
# Reading type texts

Types are read from the lexical elements of a text by the rules of the language: a
keyword or a mark opens a composed type, parentheses may stand around a type, and
an arrow behind the keyword of a channel belongs to that keyword, whatever follows.
A member of a parameter list has a name if a type begins behind its first word;
that members without a type of their own share the one of a later member is left
out, since it moves no arrow.

The reader takes a bound on the nesting and on the length of lists, and the length
of the text is enough.
-/

import InterfaceProbe.Proofs.Model.Lexemes
import InterfaceProbe.Proofs.Model.Openings

namespace InterfaceProbe

/-- Takes elements from the beginning of a sequence and leaves the others. -/
abbrev LexemeReader (α : Type) := List Lexeme → Option (α × List Lexeme)

namespace LexemeReader

/-- The members of a list up to its closing mark, with a mark between each two. -/
def members {α : Type} (member : LexemeReader α) (between closing : Char) :
    Nat → LexemeReader (List α)
  | 0, _ => none
  | limit + 1, elements =>
    if elements.head? = some (.mark closing) then some ([], elements.tail)
    else do
      let (first, rest) ← member elements
      if rest.head? = some (.mark closing) then some ([first], rest.tail)
      else if rest.head? = some (.mark between) then do
        let (others, rest) ← members member between closing limit rest.tail
        some (first :: others, rest)
      else none

/-- Whether a type can begin here. -/
def beginsType : List Lexeme → Bool
  | .word _ :: _ => true
  | .arrow :: _ => true
  | .mark c :: _ => c ∈ ['*', '[', '(']
  | _ => false

variable (type : LexemeReader GoType) (limit : Nat)

/-- A type behind three dots, or just a type. -/
def marked (name : String) : LexemeReader (Bool × Parameter)
  | .dots :: rest => do
    let (t, rest) ← type rest
    some ((true, ⟨name, t⟩), rest)
  | elements => do
    let (t, rest) ← type elements
    some ((false, ⟨name, t⟩), rest)

/-- A member of a parameter list, with or without a name. -/
def argument : LexemeReader (Bool × Parameter)
  | .word name :: rest =>
    if name ∉ keywords ∧ (rest.head? = some .dots ∨ beginsType rest) then marked type name rest
    else marked type "" (.word name :: rest)
  | elements => marked type "" elements

/-- The parameters and the variadic one of a list.  Only the last member may be marked. -/
def ofArguments : List (Bool × Parameter) → Option (List Parameter × Option Parameter)
  | [] => some ([], none)
  | [(true, p)] => some ([], some p)
  | (false, p) :: rest => do
    let (params, variadic) ← ofArguments rest
    some (p :: params, variadic)
  | _ => none

/-- A parameter list behind its opening parenthesis. -/
def arguments : LexemeReader (List Parameter × Option Parameter) := fun elements => do
  let (listed, rest) ← members (argument type) ',' ')' limit elements
  let parameters ← ofArguments listed
  some (parameters, rest)

/-- Results: a list, one bare type, or nothing. -/
def results : LexemeReader (List Parameter)
  | .mark '(' :: rest => do
    let ((params, variadic), rest) ← arguments type limit rest
    if variadic.isSome then none else some (params, rest)
  | elements =>
    if beginsType elements then do
      let (t, rest) ← type elements
      some ([⟨"", t⟩], rest)
    else some ([], elements)

/-- What a signature declares, as a method without a name. -/
def signature : LexemeReader Method
  | .mark '(' :: rest => do
    let ((params, variadic), rest) ← arguments type limit rest
    let (results, rest) ← results type limit rest
    some (⟨"", params, results, variadic⟩, rest)
  | _ => none

/-- A field of a struct literal. -/
def field : LexemeReader Field
  | .word name :: rest => do
    let (t, rest) ← type rest
    some (⟨name, t⟩, rest)
  | _ => none

/-- A method of an interface literal. -/
def method : LexemeReader Method
  | .word name :: rest => do
    let (m, rest) ← signature type limit rest
    some ({ m with name := name }, rest)
  | _ => none

/-- The members of a literal between braces. -/
def braced {α : Type} (member : LexemeReader α) : LexemeReader (List α)
  | .mark '\x7b' :: rest => members member ';' '\x7d' limit rest
  | _ => none

/-- The number that a numeral denotes. -/
def ofNumeral (text : String) : Nat :=
  Decimal.ofDigits (text.toList.map fun c => c.toNat - 48)

/-- The length of an array behind its opening bracket. -/
def length : LexemeReader (Option Int64)
  | .mark ']' :: rest => some (none, rest)
  | .mark '-' :: .word numeral :: .mark ']' :: rest =>
    some (some (.ofInt (-(ofNumeral numeral : Int))), rest)
  | .word numeral :: .mark ']' :: rest => some (some (.ofInt (ofNumeral numeral)), rest)
  | _ => none

/-- A map type behind its keyword. -/
def mapType : LexemeReader GoType
  | .mark '[' :: rest => do
    let (key, rest) ← type rest
    let (value, rest) ← if rest.head? = some (.mark ']') then type rest.tail else none
    some (.map key value, rest)
  | _ => none

/-- A channel type behind its keyword, which takes an arrow that follows. -/
def chanType : LexemeReader GoType
  | .arrow :: rest => do
    let (elem, rest) ← type rest
    some (.chan .send elem, rest)
  | elements => do
    let (elem, rest) ← type elements
    some (.chan .both elem, rest)

/-- The name of a type behind its first word. -/
def nameType (word : String) : LexemeReader GoType
  | .mark '.' :: .word name :: rest => some (.predeclared (word ++ "." ++ name), rest)
  | elements => if word ∈ keywords then none else some (.predeclared word, elements)

/-- A type behind its first word. -/
def afterWord (word : String) (elements : List Lexeme) : Option (GoType × List Lexeme) :=
  match kindOfWord word with
  | .map => mapType type elements
  | .chan => chanType type elements
  | .func => do
    let (m, rest) ← signature type limit elements
    some (.func m.params m.results m.variadic, rest)
  | .struct => do
    let (fields, rest) ← braced limit (field type) elements
    some (.struct fields, rest)
  | .interface => do
    let (methods, rest) ← braced limit (method type limit) elements
    some (.interface methods, rest)
  | _ => nameType word elements

/-- A type, nested no deeper than the bound and with no more members in a list. -/
def typeWithin : Nat → LexemeReader GoType
  | 0, _ => none
  | bound + 1, .mark '*' :: rest => do
    let (elem, rest) ← typeWithin bound rest
    some (.pointer elem, rest)
  | bound + 1, .mark '[' :: rest => do
    let (len, rest) ← length rest
    let (elem, rest) ← typeWithin bound rest
    some (.array len elem, rest)
  | bound + 1, .arrow :: .word "chan" :: rest => do
    let (elem, rest) ← typeWithin bound rest
    some (.chan .recv elem, rest)
  | bound + 1, .mark '(' :: rest => do
    let (inner, rest) ← typeWithin bound rest
    if rest.head? = some (.mark ')') then some (inner, rest.tail) else none
  | bound + 1, .word word :: rest => afterWord (typeWithin bound) bound word rest
  | _, _ => none

-- what a type begins with says how it is read on
section Steps

variable (bound : Nat) (elements : List Lexeme)

theorem typeWithin_star : typeWithin (bound + 1) (.mark '*' :: elements) = (do
    let (elem, rest) ← typeWithin bound elements
    some (.pointer elem, rest)) := rfl

theorem typeWithin_bracket : typeWithin (bound + 1) (.mark '[' :: elements) = (do
    let (len, rest) ← length elements
    let (elem, rest) ← typeWithin bound rest
    some (.array len elem, rest)) := rfl

theorem typeWithin_arrow : typeWithin (bound + 1) (.arrow :: .word "chan" :: elements) = (do
    let (elem, rest) ← typeWithin bound elements
    some (.chan .recv elem, rest)) := rfl

theorem typeWithin_word (word : String) : typeWithin (bound + 1) (.word word :: elements) =
    afterWord (typeWithin bound) bound word elements := rfl

end Steps

end LexemeReader

/-- The type that a text is read as, leaves going by their text, if it is the text of a type. -/
def readType? (text : String) : Option GoType :=
  match LexemeReader.typeWithin text.length (lexemes text.toList) with
  | some (type, []) => some type
  | _ => none

/-- Parentheses keep an arrow away from the channel before it. -/
example : readType? "chan (<-chan int)" =
    some (.chan .both (.chan .recv (.predeclared "int"))) := by rfl

end InterfaceProbe
