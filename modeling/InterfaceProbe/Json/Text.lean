/-
# Reading string literals

The bytes of a literal are collected up to its closing quote, escapes replaced
by the UTF-8 form of what they stand for, and only then checked to be valid
UTF-8.  An escaped surrogate has to be the first of a pair.  The first fault
from the left counts.
-/

import InterfaceProbe.Json.Reader

namespace InterfaceProbe.Reader

/-- The value of a hexadecimal digit of either case. -/
def hexValue? (b : UInt8) : Option Nat :=
  if 48 ≤ b ∧ b ≤ 57 then some (b.toNat - 48)
  else if 97 ≤ b ∧ b ≤ 102 then some (b.toNat - 87)
  else if 65 ≤ b ∧ b ≤ 70 then some (b.toNat - 55)
  else none

/-- The number of four hexadecimal digits, taken together, and the rest. -/
def hexQuad : Bytes → Except Fault (Nat × Bytes)
  | a :: b :: c :: d :: rest =>
    match hexValue? a, hexValue? b, hexValue? c, hexValue? d with
    | some a, some b, some c, some d => .ok (((a * 16 + b) * 16 + c) * 16 + d, rest)
    | _, _, _, _ => .error (.malformed .invalidEscape)
  | _ => .error (.malformed .endInString)

/-- The UTF-8 bytes of a code point that is no surrogate. -/
def codePointBytes (n : Nat) : Bytes := String.utf8EncodeChar (Char.ofNat n)

/-- Whether a code unit is the first of a surrogate pair. -/
def isLeading (unit : Nat) : Bool := 0xD800 ≤ unit && unit ≤ 0xDBFF

/-- Whether a code unit is the second of a surrogate pair. -/
def isTrailing (unit : Nat) : Bool := 0xDC00 ≤ unit && unit ≤ 0xDFFF

/-- The bytes that the digits of a `\u` escape stand for.  The first half of a surrogate pair
takes the escape of the second half along. -/
def unicodeEscape (text : Bytes) : Except Fault (Bytes × Bytes) :=
  match hexQuad text with
  | .error fault => .error fault
  | .ok (unit, rest) =>
    if isTrailing unit then .error (.malformed .loneSurrogate)
    else if isLeading unit then
      match rest with
      | [] => .error (.malformed .endInString)
      | [b] =>
        if b = 92 then .error (.malformed .endInString) else .error (.malformed .missingSurrogate)
      | b :: c :: rest =>
        if b = 92 ∧ c = 117 then
          match hexQuad rest with
          | .error fault => .error fault
          | .ok (second, rest) =>
            if isTrailing second then
              .ok (codePointBytes (0x10000 + (unit - 0xD800) * 0x400 + (second - 0xDC00)), rest)
            else .error (.malformed .loneSurrogate)
        else .error (.malformed .missingSurrogate)
    else .ok (codePointBytes unit, rest)

/-- What the letter of a short escape stands for. -/
def shortEscape? (letter : UInt8) : Option UInt8 :=
  if letter = 34 then some 34
  else if letter = 92 then some 92
  else if letter = 47 then some 47
  else if letter = 98 then some 8
  else if letter = 102 then some 12
  else if letter = 110 then some 10
  else if letter = 114 then some 13
  else if letter = 116 then some 9
  else none

/-- The bytes that an escape stands for; the text starts after the backslash. -/
def escapeBytes : Bytes → Except Fault (Bytes × Bytes)
  | [] => .error (.malformed .endInString)
  | letter :: rest =>
    if letter = 117 then unicodeEscape rest
    else
      match shortEscape? letter with
      | some b => .ok ([b], rest)
      | none => .error (.malformed .invalidEscape)

theorem hexQuad_suffix {text rest : Bytes} {unit : Nat} (h : hexQuad text = .ok (unit, rest)) :
    rest <:+ text := by
  unfold hexQuad at h
  split at h
  · next a b c d tail =>
    split at h
    · cases h
      exact ⟨[a, b, c, d], rfl⟩
    · cases h
  · cases h

theorem unicodeEscape_suffix {text rest bytes : Bytes}
    (h : unicodeEscape text = .ok (bytes, rest)) : rest <:+ text := by
  unfold unicodeEscape at h
  split at h
  · cases h
  · next unit middle hunit =>
    have hmiddle := hexQuad_suffix hunit
    split at h
    · cases h
    · split at h
      · split at h
        · cases h
        · split at h <;> cases h
        · next b c tail =>
          split at h
          · split at h
            · cases h
            · next second tail' hsecond =>
              split at h
              · simp only [Except.ok.injEq, Prod.mk.injEq] at h
                exact h.2 ▸ (hexQuad_suffix hsecond).trans
                  ((List.suffix_append [b, c] tail).trans hmiddle)
              · cases h
          · cases h
      · cases h
        exact hmiddle

theorem escapeBytes_suffix {text rest bytes : Bytes}
    (h : escapeBytes text = .ok (bytes, rest)) : rest <:+ text := by
  cases text with
  | nil => cases h
  | cons letter tail =>
    simp only [escapeBytes] at h
    split at h
    · exact (unicodeEscape_suffix h).trans (List.suffix_cons letter tail)
    · split at h
      · simp only [Except.ok.injEq, Prod.mk.injEq] at h
        exact h.2 ▸ List.suffix_cons letter tail
      · cases h

/-- The bytes up to the closing quote, after those already collected in reverse. -/
def literalFrom (collected text : Bytes) : Except Fault (Bytes × Bytes) :=
  match text with
  | [] => .error (.malformed .endInString)
  | b :: rest =>
    if b = 34 then .ok (collected.reverse, rest)
    else if b = 92 then
      match _hescape : escapeBytes rest with
      | .error fault => .error fault
      | .ok (bytes, rest') => literalFrom (bytes.reverse ++ collected) rest'
    else if b < 32 then .error (.malformed .controlCharacter)
    else literalFrom (b :: collected) rest
termination_by text.length
decreasing_by
  · have := (escapeBytes_suffix _hescape).length_le
    simp only [List.length_cons]
    omega
  · simp

theorem literalFrom_suffix {collected text bytes rest : Bytes}
    (h : literalFrom collected text = .ok (bytes, rest)) : rest <:+ text := by
  fun_induction literalFrom collected text with
  | case1 | case3 | case5 => cases h
  | case2 =>
    cases h
    exact List.suffix_cons 34 _
  | case4 collected middle bytes' rest' hescape _ ih =>
    exact (ih h).trans ((escapeBytes_suffix hescape).trans (List.suffix_cons 92 _))
  | case6 collected b middle _ _ _ ih => exact (ih h).trans (List.suffix_cons b _)

/-- The bytes of a literal whose opening quote has been taken. -/
def literalBytes : Reader Bytes where
  run text := literalFrom [] text
  rest_suffix h := literalFrom_suffix h

/-- The text of a literal whose opening quote has been taken. -/
def literal : Reader String := do
  let bytes ← literalBytes
  match String.fromUTF8? bytes.toByteArray with
  | some text => pure text
  | none => malformed .invalidUnicode

/-- The key of an entry, white space before it included. -/
def key : Reader String := do
  let _ ← peek .endInObject
  skip
  literal

end InterfaceProbe.Reader
