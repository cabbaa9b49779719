/-
# Framed descriptions

A probe prints whatever the code it links prints and then its report: an empty
line, the sentinel line and one line of JSON.  The reader looks for the first
complete line that is exactly the sentinel and takes everything after it as
the description.  An indented, embedded or unterminated sentinel is none.
-/

import InterfaceProbe.Json.Printer
import InterfaceProbe.Wire.Stream
import InterfaceProbe.Wire.Writer

namespace InterfaceProbe

/-- The line that announces a description. -/
def sentinel : String := "ENCODED_PKG"

/-- The UTF-8 bytes of a text. -/
def utf8 (text : String) : Bytes := text.toByteArray.data.toList

/-- The text with the given UTF-8 bytes, if they are valid. -/
def utf8? (bytes : Bytes) : Option String := String.fromUTF8? bytes.toByteArray

/-- The first line of a text, without its line feed, and the text after it.  A last line without
a line feed is incomplete and no line. -/
def firstLine? (text : Bytes) : Option (Bytes × Bytes) :=
  match text.dropWhile (· != 10) with
  | [] => none
  | _ :: rest => some (text.takeWhile (· != 10), rest)

theorem length_lt_of_firstLine? {text line rest : Bytes}
    (h : firstLine? text = some (line, rest)) : rest.length < text.length := by
  unfold firstLine? at h
  split at h
  · cases h
  · next b tail hdrop =>
    cases h
    have := (List.dropWhile_suffix (l := text) (· != 10)).length_le
    rw [hdrop, List.length_cons] at this
    omega

/-- What follows the first sentinel line, or the number of lines when there is no such line;
`skipped` lines have gone by already. -/
def payloadFrom (skipped : Nat) (text : Bytes) : Except Nat Bytes :=
  match _hline : firstLine? text with
  | none => .error skipped
  | some (line, rest) =>
    if line = utf8 sentinel then .ok rest else payloadFrom (skipped + 1) rest
termination_by text.length
decreasing_by exact length_lt_of_firstLine? _hline

/-- Why probe output holds no description. -/
inductive DecodeError
  /-- No complete line is the sentinel; the number of complete lines. -/
  | noSentinel (lines : Nat)
  /-- What follows the sentinel line does not describe a package. -/
  | fault (fault : Fault)
  deriving DecidableEq, Repr

/-- The wording of the reason. -/
def DecodeError.message : DecodeError → String
  | .noSentinel lines =>
    sentinel ++ " line not found after " ++ Decimal.numeral lines ++ " line(s) of probe output"
  | .fault cause => cause.message

/-- What follows the first sentinel line of probe output. -/
def findPayload (output : Bytes) : Except DecodeError Bytes :=
  match payloadFrom 0 output with
  | .ok payload => .ok payload
  | .error lines => .error (.noSentinel lines)

/-- The package that probe output reports. -/
def decode (output : Bytes) : Except DecodeError Package :=
  match findPayload output with
  | .error error => .error error
  | .ok payload =>
    match readPackage payload with
    | .ok package => .ok package
    | .error fault => .error (.fault fault)

/-- The report of a package: an empty line, the sentinel line and the wire form on one line. -/
def reportText (package : Package) : String :=
  "\n" ++ sentinel ++ "\n" ++ package.toJson.compact ++ "\n"

/-- The report of a package as a probe prints it. -/
def encode (package : Package) : Bytes := utf8 (reportText package)

end InterfaceProbe
