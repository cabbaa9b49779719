/-
# Finite binary64 numbers

A finite number of the binary64 format is a sign, a mantissa below 2^53 and a
power of two, kept here as exact integers.  Rounding a quotient, a product or
a ratio to the nearest number of the format is integer arithmetic with ties to
the even mantissa; a result beyond the largest finite number is absent.
-/

namespace InterfaceProbe.Decimal

/-- A size `mantissa · 2 ^ exponent`, with the exponent no smaller than -1074. -/
structure Magnitude where
  mantissa : Nat
  exponent : Int
  deriving DecidableEq, Repr

/-- A finite binary64 number: a sign, which zero has too, and a magnitude. -/
structure Binary64 where
  negative : Bool
  magnitude : Magnitude
  deriving DecidableEq, Repr

/-- The quotient rounded to the nearest integer, a half going to the even neighbour. -/
def roundHalfEven (num den : Nat) : Nat :=
  let quotient := num / den
  let double := 2 * (num % den)
  if double < den then quotient
  else if den < double then quotient + 1
  else quotient + quotient % 2

namespace Magnitude

/-- Exponents of the format range from that of the least positive number ... -/
def minExponent : Int := -1074

/-- ... to that of the numbers just below the overflow bound. -/
def maxExponent : Int := 971

/-- Zero has the least exponent. -/
def zero : Magnitude := ⟨0, minExponent⟩

/-- Whether no digit is set. -/
def isZero (x : Magnitude) : Bool := x.mantissa == 0

/-- The ratio `num / den · 2 ^ scale / 2 ^ exponent` as numerator and denominator. -/
def scaled (num den : Nat) (scale exponent : Int) : Nat × Nat :=
  (num * Nat.pow 2 (scale - exponent).toNat, den * Nat.pow 2 (exponent - scale).toNat)

/-- The exponent at which `num / den · 2 ^ scale` has 53 bits before the point, or the least one. -/
def exponentFor (num den : Nat) (scale : Int) : Int :=
  let guess := max ((Nat.log2 num : Int) - Nat.log2 den + scale - 52) minExponent
  let (n, d) := scaled num den scale guess
  if n / d < Nat.pow 2 52 then max (guess - 1) minExponent else guess

/-- The nearest number to `num / den · 2 ^ scale`; absent when that is too large. -/
def nearest (num den : Nat) (scale : Int) : Option Magnitude :=
  if num = 0 then some zero
  else
    let exponent := exponentFor num den scale
    let (n, d) := scaled num den scale exponent
    let mantissa := roundHalfEven n d
    let rounded : Magnitude :=
      if mantissa = Nat.pow 2 53 then ⟨Nat.pow 2 52, exponent + 1⟩ else ⟨mantissa, exponent⟩
    if rounded.exponent > maxExponent then none else some rounded

/-- The nearest number to a natural number. -/
def ofNat (n : Nat) : Option Magnitude := nearest n 1 0

/-- The rounded product. -/
def mul (x y : Magnitude) : Option Magnitude :=
  nearest (x.mantissa * y.mantissa) 1 (x.exponent + y.exponent)

/-- The rounded ratio, for a divisor other than zero. -/
def div (x y : Magnitude) : Option Magnitude :=
  nearest x.mantissa y.mantissa (x.exponent - y.exponent)

end Magnitude

end InterfaceProbe.Decimal
