/-
# Quoted texts in messages

A text inside a message stands between double quotes, with a backslash before
quotes and backslashes, the short escapes for the usual controls, and the code
point in braces for every other character that would not show.
-/

import InterfaceProbe.Json.Quoted
import InterfaceProbe.Text.Unprintable

namespace InterfaceProbe

/-- The hexadecimal digits of a number, without leading zeros. -/
def hexDigits (n : Nat) : List Char :=
  if n < 16 then [hexDigit n] else hexDigits (n / 16) ++ [hexDigit (n % 16)]

/-- How a character stands in a quoted text. -/
def debugEscaped (c : Char) : List Char :=
  if c = '\x00' then ['\\', '0']
  else if c = '\t' then ['\\', 't']
  else if c = '\r' then ['\\', 'r']
  else if c = '\n' then ['\\', 'n']
  else if c = '\\' then ['\\', '\\']
  else if c = '\"' then ['\\', '\"']
  else if isUnprintable c then ['\\', 'u', '\x7b'] ++ hexDigits c.toNat ++ ['\x7d']
  else [c]

/-- The text between quotes, as messages show it. -/
def debugQuoted (text : String) : String :=
  "\"" ++ String.ofList (text.toList.flatMap debugEscaped) ++ "\""

end InterfaceProbe
