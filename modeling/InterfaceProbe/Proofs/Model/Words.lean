/-
# Words and numerals in spellings

A spelling is cut into words, numerals and marks, and a run of characters ends
where the next one cannot belong to it.  Identifiers are the words that the
language does not keep for itself; they are all that spellings of well-named types
have for names.
-/

import InterfaceProbe.Decimal.Numeral

namespace InterfaceProbe

section Words

/-- The words that the language keeps for itself. -/
def keywords : List String :=
  ["break", "case", "chan", "const", "continue", "default", "defer", "else", "fallthrough", "for",
   "func", "go", "goto", "if", "import", "interface", "map", "package", "range", "return",
   "select", "struct", "switch", "type", "var"]

/-- Whether a character may stand in a word.  Of the ASCII characters letters, digits and the
underscore may.  Which of the others are letters or digits is left open: all of them may. -/
def isWordChar (c : Char) : Bool := c.isAlphanum || c == '_' || 128 ≤ c.toNat

/-- Names of letters, digits and underscores that the language does not keep for itself. -/
structure IsIdentifier (name : String) : Prop where
  ne_empty : name.toList ≠ []
  isWordChar : ∀ c ∈ name.toList, isWordChar c
  not_keyword : name ∉ keywords

instance (name : String) : Decidable (IsIdentifier name) :=
  decidable_of_iff (name.toList ≠ [] ∧ name.toList.all InterfaceProbe.isWordChar = true ∧
      name ∉ keywords)
    ⟨fun h => ⟨h.1, List.all_eq_true.1 h.2.1, h.2.2⟩,
      fun h => ⟨h.ne_empty, List.all_eq_true.2 h.isWordChar, h.not_keyword⟩⟩

theorem IsIdentifier.start {name : String} (h : IsIdentifier name) :
    ∃ c tail, name.toList = c :: tail ∧ InterfaceProbe.isWordChar c := by
  obtain ⟨c, tail, hname⟩ := List.exists_cons_of_ne_nil h.ne_empty
  exact ⟨c, tail, hname, h.isWordChar c (by simp [hname])⟩

end Words

section Runs

variable {p : Char → Bool} {run other rest tail : List Char}

/-- A run of characters of one sort ends where one of another sort follows. -/
theorem run_unique (hrun : ∀ c ∈ run, p c) (hother : ∀ c ∈ other, p c)
    (hrest : ∀ c ∈ rest.head?, p c = false) (htail : ∀ c ∈ tail.head?, p c = false)
    (h : run ++ rest = other ++ tail) : run = other ∧ rest = tail := by
  rcases List.append_eq_append_iff.1 h with ⟨cut, rfl, rfl⟩ | ⟨cut, rfl, rfl⟩
  · cases cut with
    | nil => simp
    | cons c cut =>
        have hc := hother c (by simp)
        simp [hrest c rfl] at hc
  · cases cut with
    | nil => simp
    | cons c cut =>
        have hc := hrun c (by simp)
        simp [htail c rfl] at hc

end Runs

namespace Decimal

/-- Whether a character may stand in a numeral. -/
def isNumeralChar (c : Char) : Bool := c == '-' || c.isDigit

theorem digitsOf_ne_nil (n : Nat) : digitsOf n ≠ [] := by
  rw [digitsOf]
  split <;> simp

theorem isDigit_of_mem_numeral {n : Nat} {c : Char} (h : c ∈ (numeral n).toList) : c.isDigit := by
  have hdigits : ∀ digit < 10, (digitChar digit).isDigit := by decide
  rw [numeral, String.toList_ofList] at h
  obtain ⟨digit, hdigit, rfl⟩ := List.mem_map.1 h
  exact hdigits digit (digit_lt_ten hdigit)

theorem numeral_ne_nil (n : Nat) : (numeral n).toList ≠ [] := by
  simp [numeral, digitsOf_ne_nil]

theorem numeral_injective {n other : Nat} (h : numeral n = numeral other) : n = other := by
  have hvalue : ∀ digit < 10, (digitChar digit).toNat - 48 = digit := by decide
  have hdigits (n : Nat) : (numeral n).toList.map (fun c => c.toNat - 48) = digitsOf n := by
    rw [numeral, String.toList_ofList, List.map_map]
    exact (List.map_congr_left fun digit hdigit => hvalue digit (digit_lt_ten hdigit)).trans
      (List.map_id _)
  rw [← ofDigits_digitsOf n, ← hdigits n, h, hdigits other, ofDigits_digitsOf]

theorem toList_signedNumeral (n : Int) :
    (signedNumeral n).toList =
      if n < 0 then '-' :: (numeral n.natAbs).toList else (numeral n.natAbs).toList := by
  unfold signedNumeral
  split <;> simp

theorem isNumeralChar_of_mem_signedNumeral {n : Int} {c : Char}
    (h : c ∈ (signedNumeral n).toList) : isNumeralChar c := by
  rw [toList_signedNumeral] at h
  split at h
  · rcases List.mem_cons.1 h with rfl | h
    · rfl
    · simp [isNumeralChar, isDigit_of_mem_numeral h]
  · simp [isNumeralChar, isDigit_of_mem_numeral h]

theorem signedNumeral_ne_nil (n : Int) : (signedNumeral n).toList ≠ [] := by
  rw [toList_signedNumeral]
  split
  · simp
  · exact numeral_ne_nil _

theorem signedNumeral_injective {n other : Int}
    (h : (signedNumeral n).toList = (signedNumeral other).toList) : n = other := by
  have hminus (n : Nat) : ∀ tail, (numeral n).toList ≠ '-' :: tail := by
    intro tail hcontra
    have hdigit : '-'.isDigit := isDigit_of_mem_numeral (n := n) (by simp [hcontra])
    exact absurd hdigit (by decide)
  rw [toList_signedNumeral, toList_signedNumeral] at h
  split at h <;> split at h
  · have habs := numeral_injective (String.toList_inj.1 (List.cons.inj h).2)
    omega
  · exact absurd h.symm (hminus _ _)
  · exact absurd h (hminus _ _)
  · have habs := numeral_injective (String.toList_inj.1 h)
    omega

end Decimal

end InterfaceProbe
