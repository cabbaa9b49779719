/-
# String literals of a program

What stands between the quotes of an interpreted string literal, read character
by character.  A backslash begins an escape: a letter for one byte, three octal
or two hexadecimal digits for a byte, four or eight hexadecimal digits for a
code point.  Every other character stands for its UTF-8 bytes, line feeds and
quotes apart, which a literal does not hold.

The escapes of `quoted` are among these and stand for the same characters.
-/

import InterfaceProbe.Proofs.Json.Compact

namespace InterfaceProbe

namespace Program

section Rules

/-- An escape that is given by digits, as far as it has been read. -/
structure Numeric where
  /-- The number of different digits. -/
  radix : Nat
  /-- How many digits are still to come. -/
  missing : Nat
  /-- The number that the digits so far denote. -/
  number : Nat
  /-- Whether the number is a code point and not a byte. -/
  isCodePoint : Bool
  deriving DecidableEq, Repr

/-- What an escape by digits stands for once they are complete.  A number beyond a byte and one
that is no code point stand for nothing. -/
def Numeric.bytes? (escape : Numeric) : Option Bytes :=
  if escape.isCodePoint then
    if escape.number.isValidChar then some (String.utf8EncodeChar (Char.ofNat escape.number))
    else none
  else if escape.number < 256 then some [UInt8.ofNat escape.number]
  else none

/-- Where in a literal a character stands. -/
inductive Spot
  /-- Outside of an escape. -/
  | plain
  /-- Behind the backslash of an escape. -/
  | backslash
  /-- Among the digits of an escape. -/
  | digits (escape : Numeric)
  deriving DecidableEq, Repr

/-- The value of a digit, for any radix up to sixteen. -/
def digitValue? (c : Char) : Option Nat :=
  if '0' ≤ c ∧ c ≤ '9' then some (c.toNat - 48)
  else if 'a' ≤ c ∧ c ≤ 'f' then some (c.toNat - 87)
  else if 'A' ≤ c ∧ c ≤ 'F' then some (c.toNat - 55)
  else none

/-- The byte that one character behind a backslash stands for. -/
def letterEscape? (c : Char) : Option UInt8 :=
  if c = 'a' then some 7
  else if c = 'b' then some 8
  else if c = 't' then some 9
  else if c = 'n' then some 10
  else if c = 'v' then some 11
  else if c = 'f' then some 12
  else if c = 'r' then some 13
  else if c = '\"' then some 34
  else if c = '\\' then some 92
  else none

/-- The escape by digits that a character behind a backslash begins.  An octal digit is the first
digit itself. -/
def numericEscape? (c : Char) : Option Numeric :=
  if c = 'x' then some ⟨16, 2, 0, false⟩
  else if c = 'u' then some ⟨16, 4, 0, true⟩
  else if c = 'U' then some ⟨16, 8, 0, true⟩
  else if '0' ≤ c ∧ c ≤ '7' then some ⟨8, 2, c.toNat - 48, false⟩
  else none

/-- One digit more. -/
def Numeric.next? (escape : Numeric) (c : Char) : Option (Spot × Bytes) := do
  let digit ← (digitValue? c).filter fun digit => digit < escape.radix
  let number := escape.number * escape.radix + digit
  let longer : Numeric := { escape with missing := escape.missing - 1, number := number }
  if longer.missing = 0 then
    let bytes ← longer.bytes?
    return (.plain, bytes)
  else
    return (.digits longer, [])

/-- The spot behind a character of a literal, and the bytes that are complete with it. -/
def Spot.next? : Spot → Char → Option (Spot × Bytes)
  | .plain, c =>
    if c = '\"' ∨ c = '\n' then none
    else if c = '\\' then some (.backslash, [])
    else some (.plain, String.utf8EncodeChar c)
  | .backslash, c =>
    match letterEscape? c with
    | some b => some (.plain, [b])
    | none => (numericEscape? c).map fun escape => (.digits escape, [])
  | .digits escape, c => escape.next? c

/-- The spot behind a part of a literal, and the bytes that the part stands for. -/
def Spot.advance? (spot : Spot) : List Char → Option (Spot × Bytes)
  | [] => some (spot, [])
  | c :: rest => do
    let (middle, bytes) ← spot.next? c
    let (last, others) ← middle.advance? rest
    return (last, bytes ++ others)

end Rules

section Runs

variable {spot middle last : Spot} {front back : List Char} {bytes others : Bytes} {c : Char}

/-- No escape goes beyond its line, and no plain part does. -/
theorem Spot.next?_lineFeed (spot : Spot) : spot.next? '\n' = none := by
  cases spot <;> rfl

theorem Spot.advance?_cons_eq_some_iff :
    spot.advance? (c :: back) = some (last, bytes) ↔
      ∃ middle first others, spot.next? c = some (middle, first) ∧
        middle.advance? back = some (last, others) ∧ bytes = first ++ others := by
  simp only [Spot.advance?, Option.bind_eq_bind, Option.bind_eq_some_iff, Option.pure_def,
    Option.some.injEq, Prod.mk.injEq, Prod.exists]
  apply Iff.intro
  · intro h
    rcases h with ⟨middle, first, hc, last, others, hback, rfl, rfl⟩
    exact ⟨middle, first, others, hc, hback, rfl⟩
  · intro h
    rcases h with ⟨middle, first, others, hc, hback, rfl⟩
    exact ⟨middle, first, hc, last, others, hback, rfl, rfl⟩

theorem Spot.advance?_append (hfront : spot.advance? front = some (middle, bytes))
    (hback : middle.advance? back = some (last, others)) :
    spot.advance? (front ++ back) = some (last, bytes ++ others) := by
  induction front generalizing spot bytes with
  | nil =>
      cases hfront
      exact hback
  | cons c front ih =>
      obtain ⟨next, first, rest, hc, hrest, rfl⟩ := Spot.advance?_cons_eq_some_iff.1 hfront
      exact Spot.advance?_cons_eq_some_iff.2
        ⟨next, first, rest ++ others, hc, ih hrest, List.append_assoc first rest others⟩

end Runs

section Quoted

theorem digitValue?_hexDigit (n : Nat) (h : n < 16) : digitValue? (hexDigit n) = some n := by
  revert n
  decide

/-- The escape of a character below the blank stands for the character. -/
theorem advance?_control {c : Char} (h : c.toNat < 32) :
    Spot.plain.advance?
        ['\\', 'u', '0', '0', hexDigit (c.toNat / 16), hexDigit (c.toNat % 16)] =
      some (.plain, String.utf8EncodeChar c) := by
  have hhigh := digitValue?_hexDigit (c.toNat / 16) (by omega)
  have hlow := digitValue?_hexDigit (c.toNat % 16) (by omega)
  have hfront : Spot.plain.advance? ['\\', 'u', '0', '0'] =
      some (.digits ⟨16, 2, 0, true⟩, []) := by
    decide
  have hfirst : (Spot.digits ⟨16, 2, 0, true⟩).next? (hexDigit (c.toNat / 16)) =
      some (.digits ⟨16, 1, c.toNat / 16, true⟩, []) := by
    have hlt : c.toNat / 16 < 16 := by omega
    simp [Spot.next?, Numeric.next?, Option.filter_some, hhigh, hlt]
  have hsecond : (Spot.digits ⟨16, 1, c.toNat / 16, true⟩).next? (hexDigit (c.toNat % 16)) =
      some (.plain, String.utf8EncodeChar c) := by
    have hlt : c.toNat % 16 < 16 := by omega
    have hvalue : c.toNat / 16 * 16 + c.toNat % 16 = c.toNat := by omega
    have hvalid : c.toNat.isValidChar := c.valid
    simp [Spot.next?, Numeric.next?, Numeric.bytes?, Option.filter_some, hlow, hlt, hvalue, hvalid]
  have hdigits : (Spot.digits ⟨16, 2, 0, true⟩).advance?
      [hexDigit (c.toNat / 16), hexDigit (c.toNat % 16)] =
        some (.plain, String.utf8EncodeChar c) := by
    simp [Spot.advance?, hfirst, hsecond]
  exact Spot.advance?_append hfront hdigits

/-- What a character is written as stands for the character. -/
theorem advance?_escaped (c : Char) :
    Spot.plain.advance? (escaped c) = some (.plain, String.utf8EncodeChar c) := by
  unfold escaped
  split_ifs with hquote hbackslash hlineFeed hreturn htab hbackspace hformFeed hcontrol
  · subst hquote
    decide
  · subst hbackslash
    decide
  · subst hlineFeed
    decide
  · subst hreturn
    decide
  · subst htab
    decide
  · subst hbackspace
    decide
  · subst hformFeed
    decide
  · exact advance?_control hcontrol
  · simp [Spot.advance?, Spot.next?, hquote, hbackslash, hlineFeed]

/-- What stands between the quotes of a literal stands for the text. -/
theorem advance?_quoted (text : String) :
    Spot.plain.advance? (text.toList.flatMap escaped) = some (.plain, utf8 text) := by
  rw [utf8_eq_flatMap]
  induction text.toList with
  | nil => rfl
  | cons c chars ih => exact Spot.advance?_append (advance?_escaped c) ih

theorem toList_quoted (text : String) :
    (quoted text).toList = '\"' :: (text.toList.flatMap escaped ++ ['\"']) := by
  simp [quoted]

end Quoted

end Program

end InterfaceProbe
