/-
# Shortest decimal text of a binary64 number

The text of a number has the fewest significant digits that still read back
as that number, and among those the digits nearest to it.  Decimal grids are
tried from coarse to fine; if a point of a grid reads back, so does one of the
two neighbours of the number on that grid, so only those two are tested.

`Layout` holds what is a matter of format and not of arithmetic: which numbers
are written positionally and how an exponent is marked.
-/

import InterfaceProbe.Decimal.Binary64
import InterfaceProbe.Decimal.Numeral

namespace InterfaceProbe.Decimal

/-- The digits of a positive number, as `digits · 10 ^ exponent`. -/
structure Digits where
  digits : Nat
  exponent : Int
  deriving DecidableEq, Repr

namespace Shortest

/-- How many decimal digits a number has, zero having one. -/
def digitCount (n : Nat) : Nat := (digitsOf n).length

/-- The power of ten `p` with `10 ^ p ≤ x < 10 ^ (p + 1)`, for a positive `x`. -/
def leadingPower (x : Magnitude) : Int :=
  let whole := x.mantissa * Nat.pow 2 x.exponent.toNat / Nat.pow 2 (-x.exponent).toNat
  if whole > 0 then (digitCount whole : Int) - 1
  else
    let inverse := (Nat.pow 2 (-x.exponent).toNat + x.mantissa - 1) / x.mantissa
    Int.negOfNat (digitCount (inverse - 1))

/-- Compares on one scale: quarters of the last mantissa bit against units of a decimal grid. -/
structure Scale where
  quarter : Nat
  unit : Nat

/-- The scale on which `x` and the multiples of `10 ^ grid` are both integers. -/
def scaleFor (x : Magnitude) (grid : Int) : Scale where
  quarter := Nat.pow 2 (x.exponent - 2).toNat * Nat.pow 10 (-grid).toNat
  unit := Nat.pow 10 grid.toNat * Nat.pow 2 (2 - x.exponent).toNat

/-- Whether a point of the scale rounds to `x`: it lies within half a step, ends included when
the mantissa is even.  Below a power of two the step is half as long. -/
def readsBack (x : Magnitude) (scale : Scale) (point : Nat) : Bool :=
  let below :=
    if x.mantissa = Nat.pow 2 52 ∧ x.exponent > Magnitude.minExponent then 1 else 2
  let low := (4 * x.mantissa - below) * scale.quarter
  let high := (4 * x.mantissa + 2) * scale.quarter
  if x.mantissa % 2 = 0 then low ≤ point ∧ point ≤ high else low < point ∧ point < high

/-- The neighbour of `x` on the grid `10 ^ grid` that reads back, the nearer one if both do. -/
def onGrid? (x : Magnitude) (grid : Int) : Option Digits :=
  let scale := scaleFor x grid
  let value := 4 * x.mantissa * scale.quarter
  let lower := value / scale.unit
  let lowerFits := lower > 0 ∧ readsBack x scale (lower * scale.unit)
  let upperFits := readsBack x scale ((lower + 1) * scale.unit)
  let remainder := value % scale.unit
  if lowerFits ∧ (¬ upperFits ∨ 2 * remainder < scale.unit ∨
      2 * remainder = scale.unit ∧ lower % 2 = 0) then some ⟨lower, grid⟩
  else if upperFits then some ⟨lower + 1, grid⟩
  else none

/-- The result on the first of the grids, from coarse to fine, that has one. -/
def firstGrid (x : Magnitude) (power : Int) : Nat → Nat → Digits
  | 0, _ => ⟨x.mantissa, 0⟩
  | tries + 1, count =>
    match onGrid? x (power - count) with
    | some digits => digits
    | none => firstGrid x power tries (count + 1)

end Shortest

/-- The shortest digits that read back as a positive number; seventeen always suffice. -/
def Magnitude.shortest (x : Magnitude) : Digits :=
  Shortest.firstGrid x (Shortest.leadingPower x) 18 0

/-- The decisions of a number format that arithmetic leaves open. -/
structure Layout where
  /-- The powers of ten of the leading digit that are written without an exponent. -/
  leastPositional : Int
  greatestPositional : Int
  /-- What stands before a non-negative exponent. -/
  plusMark : String
  /-- What stands before the size of a negative exponent. -/
  minusMark : String

/-- Numbers from 1e-5 up to below 1e16 are positional, and an exponent always has a sign. -/
def Layout.messages : Layout := ⟨-5, 15, "e+", "e-"⟩

/-- Removes trailing zeros from the digits. -/
def trimZeros (digits : List Char) : List Char :=
  (digits.reverse.dropWhile (· == '0')).reverse

/-- Digits with a point after the first `whole` of them; one digit at least on either side. -/
def pointed (digits : List Char) (whole : Int) : List Char :=
  if whole ≤ 0 then
    '0' :: '.' :: (List.replicate (-whole).toNat '0' ++ digits)
  else if digits.length ≤ whole.toNat then
    digits ++ List.replicate (whole.toNat - digits.length) '0' ++ ['.', '0']
  else digits.take whole.toNat ++ '.' :: digits.drop whole.toNat

/-- The text of digits in a layout. -/
def Layout.text (layout : Layout) (x : Digits) : String :=
  let digits := trimZeros ((digitsOf x.digits).map digitChar)
  let power := (Shortest.digitCount x.digits : Int) - 1 + x.exponent
  if layout.leastPositional ≤ power ∧ power ≤ layout.greatestPositional then
    String.ofList (pointed digits (power + 1))
  else
    let mantissa := match digits with
      | [] => []
      | [digit] => [digit]
      | digit :: rest => digit :: '.' :: rest
    String.ofList mantissa ++ (if power < 0 then layout.minusMark else layout.plusMark) ++
      numeral power.natAbs

/-- The text of a number: its sign, then zero or the shortest digits in the layout. -/
def Binary64.text (layout : Layout) (x : Binary64) : String :=
  (if x.negative then "-" else "") ++
    if x.magnitude.isZero then "0.0" else layout.text x.magnitude.shortest

end InterfaceProbe.Decimal
