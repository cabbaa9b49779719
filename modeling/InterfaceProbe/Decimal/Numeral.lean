/-
# Decimal numerals

The digits of a natural number, most significant first and without leading
zeros, and the numerals written with them.  `ofDigits` reads digits back; it
gives digits with leading zeros the same value.
-/

namespace InterfaceProbe.Decimal

/-- The decimal digits of a number, zero having the one digit zero. -/
def digitsOf (n : Nat) : List Nat :=
  if n < 10 then [n] else digitsOf (n / 10) ++ [n % 10]

/-- The number that digits denote. -/
def ofDigits (digits : List Nat) : Nat := digits.foldl (fun value digit => 10 * value + digit) 0

/-- The character of a digit. -/
def digitChar (digit : Nat) : Char := Char.ofNat (48 + digit)

/-- The numeral of a natural number. -/
def numeral (n : Nat) : String := String.ofList ((digitsOf n).map digitChar)

/-- The numeral of an integer, with a minus sign before a negative one. -/
def signedNumeral (n : Int) : String :=
  if n < 0 then "-" ++ numeral n.natAbs else numeral n.natAbs

theorem ofDigits_concat (digits : List Nat) (digit : Nat) :
    ofDigits (digits ++ [digit]) = 10 * ofDigits digits + digit := by
  simp [ofDigits]

theorem ofDigits_digitsOf (n : Nat) : ofDigits (digitsOf n) = n := by
  induction n using Nat.strongRecOn with
  | _ n ih =>
    rw [digitsOf]
    split
    · simp [ofDigits]
    · rw [ofDigits_concat, ih (n / 10) (by omega)]
      omega

theorem digit_lt_ten {n digit : Nat} (h : digit ∈ digitsOf n) : digit < 10 := by
  induction n using Nat.strongRecOn with
  | _ n ih =>
    rw [digitsOf] at h
    split at h
    · simp_all
    · rcases List.mem_append.1 h with h | h
      · exact ih (n / 10) (by omega) h
      · simp at h
        omega

end InterfaceProbe.Decimal
