/-
# Faults of a JSON text

Everything that can be wrong with a text that should describe a package.  A
fault is a cause; `Fault.message` words it.  `Malformed` faults are about the
text alone, the others about what the text should have held at a place.
Positions are not part of a fault.
-/

import InterfaceProbe.Decimal.Shortest
import InterfaceProbe.Text.Debug
import InterfaceProbe.Text.Separated

namespace InterfaceProbe

/-- What can be wrong with a text as JSON. -/
inductive Malformed
  | endInValue | endInObject | endInArray | endInString
  | expectedValue | expectedLiteral | expectedColon
  | expectedObjectEnd | expectedArrayEnd
  | keyNotString | trailingComma | trailingCharacters
  | invalidNumber | numberOutOfRange
  | controlCharacter | invalidEscape | loneSurrogate | missingSurrogate | invalidUnicode
  | tooDeep
  deriving DecidableEq, Repr

/-- The value that was met where another was due. -/
inductive Found
  | null
  | bool (value : Bool)
  | integer (value : Int)
  | real (value : Decimal.Binary64)
  | string (value : String)
  | sequence
  | map
  deriving DecidableEq, Repr

/-- Why a text does not describe a package. -/
inductive Fault
  | malformed (cause : Malformed)
  | invalidType (found : Found) (expected : String)
  | invalidValue (found : Found) (expected : String)
  | invalidLength (length : Nat) (expected : String)
  | unknownVariant (name : String) (known : List String)
  | missingField (key : String)
  | duplicateField (key : String)
  deriving DecidableEq, Repr

/-- The wording of a fault of the text. -/
def Malformed.message : Malformed → String
  | .endInValue => "EOF while parsing a value"
  | .endInObject => "EOF while parsing an object"
  | .endInArray => "EOF while parsing a list"
  | .endInString => "EOF while parsing a string"
  | .expectedValue => "expected value"
  | .expectedLiteral => "expected ident"
  | .expectedColon => "expected `:`"
  | .expectedObjectEnd => "expected `,` or `\x7d`"
  | .expectedArrayEnd => "expected `,` or `]`"
  | .keyNotString => "key must be a string"
  | .trailingComma => "trailing comma"
  | .trailingCharacters => "trailing characters"
  | .invalidNumber => "invalid number"
  | .numberOutOfRange => "number out of range"
  | .controlCharacter => "control character (\\u0000-\\u001F) found while parsing a string"
  | .invalidEscape => "invalid escape"
  | .loneSurrogate => "lone leading surrogate in hex escape"
  | .missingSurrogate => "unexpected end of hex escape"
  | .invalidUnicode => "invalid unicode code point"
  | .tooDeep => "recursion limit exceeded"

/-- How a value that was met is described. -/
def Found.message : Found → String
  | .null => "null"
  | .bool value => "boolean `" ++ (if value then "true" else "false") ++ "`"
  | .integer value => "integer `" ++ Decimal.signedNumeral value ++ "`"
  | .real value => "floating point `" ++ value.text Decimal.Layout.messages ++ "`"
  | .string value => "string " ++ debugQuoted value
  | .sequence => "sequence"
  | .map => "map"

/-- The wording of a fault. -/
def Fault.message : Fault → String
  | .malformed cause => cause.message
  | .invalidType found expected => "invalid type: " ++ found.message ++ ", expected " ++ expected
  | .invalidValue found expected => "invalid value: " ++ found.message ++ ", expected " ++ expected
  | .invalidLength length expected =>
    "invalid length " ++ Decimal.numeral length ++ ", expected " ++ expected
  | .unknownVariant name known =>
    "unknown variant `" ++ name ++ "`, expected one of " ++
      separated ", " (known.map fun k => "`" ++ k ++ "`")
  | .missingField key => "missing field `" ++ key ++ "`"
  | .duplicateField key => "duplicate field `" ++ key ++ "`"

end InterfaceProbe
