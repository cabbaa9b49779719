/-
# Ranges of code points

Properties of characters that no formula gives are tables of ranges, the ends
included, in increasing order.
-/

namespace InterfaceProbe

/-- The code points from the first to the second, both included. -/
abbrev CharRange := Nat × Nat

/-- Whether the character lies in one of the ranges; those that start behind it do not matter. -/
def inRanges : List CharRange → Char → Bool
  | [], _ => false
  | range :: rest, c => range.1 ≤ c.toNat && (c.toNat ≤ range.2 || inRanges rest c)

end InterfaceProbe
