/-
# Reading numbers

A number literal is read as its digits, and only then given a value.  Without
a fraction or an exponent it is an integer if 64 bits hold it; minus zero is
no integer.  Every other literal is a binary64 number: the digits that fit 64
bits, taken times or divided by the power of ten, each step rounded.  A literal
too large for that is out of range.
-/

import InterfaceProbe.Json.Basic
import InterfaceProbe.Json.Reader

namespace InterfaceProbe

/-- A number literal, taken apart into its digits. -/
structure NumberLiteral where
  negative : Bool
  /-- The digits before the point; at least one. -/
  whole : List Nat
  /-- The digits after the point, if there is one; then at least one. -/
  fraction : Option (List Nat)
  /-- Whether the exponent is negative, and its digits. -/
  exponent : Option (Bool × List Nat)
  deriving DecidableEq, Repr

namespace NumberLiteral

/-- The leading digits whose number stays below 2^64 behind `value`, and how many they are. -/
def leadingValue (value count : Nat) : List Nat → Nat × Nat
  | [] => (value, count)
  | digit :: rest =>
    if 10 * value + digit < 0x10000000000000000 then
      leadingValue (10 * value + digit) (count + 1) rest
    else (value, count)

/-- Digits whose number stays below 2^64 are all kept. -/
theorem leadingValue_of_lt (value count : Nat) (digits : List Nat)
    (h : digits.foldl (fun value digit => 10 * value + digit) value < 0x10000000000000000) :
    leadingValue value count digits =
      (digits.foldl (fun value digit => 10 * value + digit) value, count + digits.length) := by
  induction digits generalizing value count with
  | nil => rfl
  | cons digit rest ih =>
    have hgrows : ∀ (digits : List Nat) (value : Nat),
        value ≤ digits.foldl (fun value digit => 10 * value + digit) value := by
      intro digits
      induction digits with
      | nil => exact fun value => Nat.le_refl value
      | cons digit rest ih =>
        intro value
        exact Nat.le_trans (by omega) (ih (10 * value + digit))
    have hstep := hgrows rest (10 * value + digit)
    rw [List.foldl_cons] at h
    rw [leadingValue, if_pos (by omega), ih _ _ h, List.foldl_cons, List.length_cons]
    simp only [Prod.mk.injEq, true_and]
    omega

/-- Digits whose number reaches 2^64 are not all kept. -/
theorem leadingValue_count_lt (value count : Nat) (digits : List Nat)
    (hvalue : value < 0x10000000000000000)
    (h : 0x10000000000000000 ≤ digits.foldl (fun value digit => 10 * value + digit) value) :
    (leadingValue value count digits).2 < count + digits.length := by
  induction digits generalizing value count with
  | nil => exact absurd hvalue (Nat.not_lt.2 h)
  | cons digit rest ih =>
    rw [List.foldl_cons] at h
    rw [leadingValue, List.length_cons]
    split
    · next hfits =>
      have := ih (10 * value + digit) (count + 1) hfits h
      omega
    · simp only
      omega

/-- The power of ten that the exponent names.  Of a longer exponent only the digits that fit
64 bits count: either way it makes a number too large or zero. -/
def power (literal : NumberLiteral) : Int :=
  match literal.exponent with
  | none => 0
  | some (negative, digits) =>
    let size := (leadingValue 0 0 digits).1
    if negative then -(size : Int) else size

/-- The digits kept, as a number, and the power of ten to take it times. -/
def parts (literal : NumberLiteral) : Nat × Int :=
  let (wholeValue, wholeCount) := leadingValue 0 0 literal.whole
  let (value, fractionCount) := leadingValue wholeValue 0 (literal.fraction.getD [])
  (value, (literal.whole.length - wholeCount : Int) - fractionCount + literal.power)

/-- Division by a power of ten in steps of at most 308 powers, each step rounded. -/
def dividedBy (x : Decimal.Magnitude) (power : Nat) : Decimal.Magnitude :=
  if x.isZero then x
  else
    let step := min power 308
    let quotient := do (x.div (← Decimal.Magnitude.ofNat (Nat.pow 10 step)))
    let quotient := quotient.getD .zero
    if power ≤ 308 then quotient else dividedBy quotient (power - 308)
termination_by power

/-- A number times a power of ten, rounded; absent when that is too large. -/
def scaledByTen (x : Decimal.Magnitude) (power : Int) : Option Decimal.Magnitude :=
  if x.isZero then some x
  else if power < 0 then some (dividedBy x power.natAbs)
  else if power > 308 then none
  else do x.mul (← Decimal.Magnitude.ofNat (Nat.pow 10 power.natAbs))

/-- The literal's value as a binary64 number. -/
def real (literal : NumberLiteral) : Except Fault JsonNumber :=
  let (value, power) := literal.parts
  match (Decimal.Magnitude.ofNat value).bind fun x => scaledByTen x power with
  | some magnitude => .ok (.real ⟨literal.negative, magnitude⟩)
  | none => .error (.malformed .numberOutOfRange)

/-- The literal's value: an integer where 64 bits hold it, else a binary64 number. -/
def value (literal : NumberLiteral) : Except Fault JsonNumber :=
  if literal.fraction.isSome || literal.exponent.isSome then literal.real
  else
    let (n, count) := leadingValue 0 0 literal.whole
    if count < literal.whole.length then literal.real
    else if literal.negative then
      if 0 < n ∧ n ≤ 0x8000000000000000 then .ok (.integer (-(n : Int))) else literal.real
    else .ok (.integer n)

end NumberLiteral

namespace Reader

/-- Whether a byte is a decimal digit. -/
def isDigit (b : UInt8) : Bool := 48 ≤ b && b ≤ 57

/-- The digits at the front of the text, as numbers. -/
def leadingDigits (text : Bytes) : List Nat :=
  (text.takeWhile isDigit).map fun b => b.toNat - 48

/-- The text after its leading digits. -/
def afterDigits (text : Bytes) : Bytes := text.dropWhile isDigit

/-- The fault of a literal that stops before a digit that is due. -/
def missingDigit : Bytes → Fault
  | [] => .malformed .endInValue
  | _ :: _ => .malformed .invalidNumber

/-- The digits before the point, of which only a lone one may be zero. -/
def wholeDigits (text : Bytes) : Except Fault (List Nat × Bytes) :=
  match leadingDigits text with
  | [] => .error (missingDigit text)
  | [0] => .ok ([0], afterDigits text)
  | 0 :: _ => .error (.malformed .invalidNumber)
  | digits => .ok (digits, afterDigits text)

/-- The point and its digits, if the text starts with a point. -/
def fractionDigits : Bytes → Except Fault (Option (List Nat) × Bytes)
  | [] => .ok (none, [])
  | b :: rest =>
    if b = 46 then
      match leadingDigits rest with
      | [] => .error (missingDigit rest)
      | digits => .ok (some digits, afterDigits rest)
    else .ok (none, b :: rest)

/-- The sign of an exponent, if it has one, and the text after it. -/
def exponentSign : Bytes → Bool × Bytes
  | [] => (false, [])
  | b :: rest =>
    if b = 43 then (false, rest) else if b = 45 then (true, rest) else (false, b :: rest)

/-- The exponent, if the text starts with its letter. -/
def exponentDigits : Bytes → Except Fault (Option (Bool × List Nat) × Bytes)
  | [] => .ok (none, [])
  | b :: rest =>
    if b = 101 ∨ b = 69 then
      match leadingDigits (exponentSign rest).2 with
      | [] => .error (missingDigit (exponentSign rest).2)
      | digits => .ok (some ((exponentSign rest).1, digits), afterDigits (exponentSign rest).2)
    else .ok (none, b :: rest)

/-- A number literal after its sign. -/
def unsignedLiteral (negative : Bool) (text : Bytes) : Except Fault (NumberLiteral × Bytes) :=
  match wholeDigits text with
  | .error fault => .error fault
  | .ok (whole, rest) =>
    match fractionDigits rest with
    | .error fault => .error fault
    | .ok (fraction, rest) =>
      match exponentDigits rest with
      | .error fault => .error fault
      | .ok (exponent, rest) => .ok (⟨negative, whole, fraction, exponent⟩, rest)

theorem afterDigits_suffix (text : Bytes) : afterDigits text <:+ text :=
  List.dropWhile_suffix isDigit

theorem wholeDigits_suffix {text rest : Bytes} {digits : List Nat}
    (h : wholeDigits text = .ok (digits, rest)) : rest <:+ text := by
  unfold wholeDigits at h
  split at h
  all_goals cases h
  all_goals exact afterDigits_suffix text

theorem fractionDigits_suffix {text rest : Bytes} {digits : Option (List Nat)}
    (h : fractionDigits text = .ok (digits, rest)) : rest <:+ text := by
  unfold fractionDigits at h
  split at h
  · cases h
    exact List.suffix_refl _
  · next b tail =>
    split at h
    · split at h
      · cases h
      · cases h
        exact (afterDigits_suffix tail).trans (List.suffix_cons b tail)
    · cases h
      exact List.suffix_refl _

theorem exponentSign_suffix (text : Bytes) : (exponentSign text).2 <:+ text := by
  cases text with
  | nil => exact List.suffix_refl _
  | cons b rest =>
    simp only [exponentSign]
    split
    · exact List.suffix_cons b rest
    · split
      · exact List.suffix_cons b rest
      · exact List.suffix_refl _

theorem exponentDigits_suffix {text rest : Bytes} {digits : Option (Bool × List Nat)}
    (h : exponentDigits text = .ok (digits, rest)) : rest <:+ text := by
  unfold exponentDigits at h
  split at h
  · cases h
    exact List.suffix_refl _
  · next b tail =>
    split at h
    · split at h
      · cases h
      · cases h
        exact (afterDigits_suffix _).trans
          ((exponentSign_suffix tail).trans (List.suffix_cons b tail))
    · cases h
      exact List.suffix_refl _

theorem unsignedLiteral_suffix {negative : Bool} {text rest : Bytes} {literal : NumberLiteral}
    (h : unsignedLiteral negative text = .ok (literal, rest)) : rest <:+ text := by
  unfold unsignedLiteral at h
  split at h
  · cases h
  · next hwhole =>
    split at h
    · cases h
    · next hfraction =>
      split at h
      · cases h
      · next hexponent =>
        cases h
        exact (exponentDigits_suffix hexponent).trans
          ((fractionDigits_suffix hfraction).trans (wholeDigits_suffix hwhole))

/-- A number literal, which stands at the front of the text. -/
def numberLiteral : Reader NumberLiteral where
  run text :=
    match text with
    | [] => .error (.malformed .endInValue)
    | b :: rest =>
      if b = 45 then unsignedLiteral true rest else unsignedLiteral false (b :: rest)
  rest_suffix {text} value rest h := by
    split at h
    · cases h
    · next b tail =>
      split at h
      · exact (unsignedLiteral_suffix h).trans (List.suffix_cons b tail)
      · exact unsignedLiteral_suffix h

/-- The value of the number literal at the front of the text. -/
def number : Reader JsonNumber := do
  let literal ← numberLiteral
  ofExcept literal.value

end Reader

end InterfaceProbe
