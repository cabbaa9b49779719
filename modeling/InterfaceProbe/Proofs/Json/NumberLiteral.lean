/-
# Reading number literals against the grammar

The reader of numbers takes exactly the texts of `NumberText`, provided that
what follows does not go on as a number would.  The second half of the module
is about values: a literal is read as an integer exactly when it denotes one,
so neither rounding nor a bound of the digits that are kept can change it.
-/

import InterfaceProbe.Proofs.Json.Reading

namespace InterfaceProbe

open Grammar

namespace Reader

section Digits

theorem isDigit_iff {b : UInt8} : isDigit b = true ↔ 48 ≤ b.toNat ∧ b.toNat ≤ 57 := by
  simp [isDigit, UInt8.le_iff_toNat_le]

theorem toNat_ofNat_digit {digit : Nat} (h : digit < 10) :
    (UInt8.ofNat (48 + digit)).toNat = 48 + digit := by
  rw [UInt8.toNat_ofNat']
  omega

theorem isDigit_of_mem_digitBytes {digits : List Nat} (h : ∀ digit ∈ digits, digit < 10)
    {b : UInt8} (hb : b ∈ digitBytes digits) : isDigit b = true := by
  obtain ⟨digit, hdigit, rfl⟩ := List.mem_map.1 hb
  have hlt := h digit hdigit
  rw [isDigit_iff, toNat_ofNat_digit hlt]
  omega

/-- The bytes after which a run of digits stops. -/
def DigitsEnd (rest : Bytes) : Prop := ∀ b ∈ rest.head?, isDigit b = false

theorem digitsEnd_of_ends {rest : Bytes} (h : Ends rest) : DigitsEnd rest :=
  fun b hb => (h b hb).1

theorem digitsEnd_append {text rest : Bytes} (htext : DigitsEnd text) (hrest : DigitsEnd rest) :
    DigitsEnd (text ++ rest) := by
  intro b hb
  cases text with
  | nil => exact hrest b hb
  | cons c text => exact htext b hb

theorem afterDigits_digitBytes {digits : List Nat} (h : ∀ digit ∈ digits, digit < 10)
    {rest : Bytes} (hrest : DigitsEnd rest) : afterDigits (digitBytes digits ++ rest) = rest := by
  rw [afterDigits, List.dropWhile_append_of_pos fun _ hb => isDigit_of_mem_digitBytes h hb]
  cases rest with
  | nil => rfl
  | cons b rest => simp [hrest b rfl]

theorem leadingDigits_digitBytes {digits : List Nat} (h : ∀ digit ∈ digits, digit < 10)
    {rest : Bytes} (hrest : DigitsEnd rest) :
    leadingDigits (digitBytes digits ++ rest) = digits := by
  rw [leadingDigits, List.takeWhile_append_of_pos fun _ hb => isDigit_of_mem_digitBytes h hb]
  have hnone : rest.takeWhile isDigit = [] := by
    cases rest with
    | nil => rfl
    | cons b rest => simp [hrest b rfl]
  rw [hnone, List.append_nil, digitBytes, List.map_map]
  conv => rhs; rw [← List.map_id digits]
  apply List.map_congr_left
  intro digit hdigit
  have := toNat_ofNat_digit (h digit hdigit)
  simp only [Function.comp, id]
  omega

theorem leadingDigits_lt_ten (text : Bytes) : ∀ digit ∈ leadingDigits text, digit < 10 := by
  intro digit hdigit
  obtain ⟨b, hb, rfl⟩ := List.mem_map.1 hdigit
  have := isDigit_iff.1 (List.all_eq_true.1 List.all_takeWhile b hb)
  omega

/-- Every text is its leading digits and what follows them. -/
theorem digitBytes_leadingDigits_append (text : Bytes) :
    digitBytes (leadingDigits text) ++ afterDigits text = text := by
  have hbytes : digitBytes (leadingDigits text) = text.takeWhile isDigit := by
    rw [digitBytes, leadingDigits, List.map_map]
    conv => rhs; rw [← List.map_id (text.takeWhile isDigit)]
    apply List.map_congr_left
    intro b hb
    have := isDigit_iff.1 (List.all_eq_true.1 List.all_takeWhile b hb)
    apply UInt8.toNat_inj.1
    simp only [Function.comp, id, UInt8.toNat_ofNat']
    omega
  rw [hbytes, afterDigits, List.takeWhile_append_dropWhile]

/-- A leading run of digits that is not empty is a numeral. -/
theorem isNumeral_leadingDigits {text : Bytes} (h : leadingDigits text ≠ []) :
    IsNumeral (leadingDigits text) :=
  ⟨h, leadingDigits_lt_ten text⟩

end Digits

section Parts

theorem wholeDigits_sound {text rest : Bytes} {digits : List Nat}
    (h : wholeDigits text = .ok (digits, rest)) :
    IsNumeral digits ∧ (digits.head? = some 0 → digits = [0]) ∧
      text = digitBytes digits ++ rest := by
  have htext := digitBytes_leadingDigits_append text
  have hnumeral : leadingDigits text ≠ [] → IsNumeral (leadingDigits text) :=
    isNumeral_leadingDigits
  unfold wholeDigits at h
  split at h
  · cases h
  · next hdigits =>
      cases h
      rw [hdigits] at htext hnumeral
      exact ⟨hnumeral (by simp), fun _ => rfl, htext.symm⟩
  · cases h
  · next found hnil hone hzero =>
      cases h
      refine ⟨hnumeral hnil, ?_, htext.symm⟩
      intro hhead
      obtain ⟨tail, htail⟩ := List.head?_eq_some_iff.1 hhead
      exact (hzero tail htail).elim

theorem wholeDigits_digitBytes {digits : List Nat} (hnumeral : IsNumeral digits)
    (hzero : digits.head? = some 0 → digits = [0]) {rest : Bytes} (hrest : DigitsEnd rest) :
    wholeDigits (digitBytes digits ++ rest) = .ok (digits, rest) := by
  have hleading := leadingDigits_digitBytes hnumeral.2 hrest
  have hafter := afterDigits_digitBytes hnumeral.2 hrest
  rw [wholeDigits, hleading, hafter]
  split
  · exact absurd rfl hnumeral.1
  · rfl
  · next tail hne => exact absurd (List.cons.inj (hzero rfl)).2 hne
  · rfl

theorem fractionDigits_sound {text rest : Bytes} {fraction : Option (List Nat)}
    (h : fractionDigits text = .ok (fraction, rest)) :
    ∃ taken, FractionText taken fraction ∧ text = taken ++ rest := by
  unfold fractionDigits at h
  split at h
  · cases h
    exact ⟨[], .none, rfl⟩
  · next b tail =>
      split at h
      · next hb =>
          split at h
          · cases h
          · next found hne =>
              cases h
              refine ⟨_, .some (isNumeral_leadingDigits hne), ?_⟩
              rw [List.cons_append, digitBytes_leadingDigits_append, hb]
      · cases h
        exact ⟨[], .none, rfl⟩

theorem fractionDigits_fractionText {text rest : Bytes} {fraction : Option (List Nat)}
    (h : FractionText text fraction) (hdigits : DigitsEnd rest)
    (hpoint : ∀ b ∈ rest.head?, b ≠ 46) :
    fractionDigits (text ++ rest) = .ok (fraction, rest) := by
  cases h with
  | none =>
      cases rest with
      | nil => rfl
      | cons b rest => simp [fractionDigits, hpoint b rfl]
  | some hnumeral =>
      have hleading := leadingDigits_digitBytes hnumeral.2 hdigits
      rw [List.cons_append, fractionDigits, if_pos rfl]
      split
      · next h => exact absurd (hleading.symm.trans h) hnumeral.1
      · rw [hleading, afterDigits_digitBytes hnumeral.2 hdigits]

theorem exponentSign_sound (text : Bytes) :
    ∃ sign, SignText sign (exponentSign text).1 ∧ text = sign ++ (exponentSign text).2 := by
  unfold exponentSign
  split
  · exact ⟨[], .none, rfl⟩
  · next b tail =>
      split
      · next hb => exact ⟨[43], .plus, by rw [hb]; rfl⟩
      · split
        · next hb => exact ⟨[45], .minus, by rw [hb]; rfl⟩
        · exact ⟨[], .none, rfl⟩

theorem exponentSign_signText {sign : Bytes} {negative : Bool} (h : SignText sign negative)
    {digits : List Nat} (hnumeral : IsNumeral digits) (rest : Bytes) :
    exponentSign (sign ++ (digitBytes digits ++ rest)) = (negative, digitBytes digits ++ rest) := by
  cases h with
  | none =>
      cases digits with
      | nil => exact absurd rfl hnumeral.1
      | cons digit digits =>
          have hdigit := toNat_ofNat_digit (hnumeral.2 digit List.mem_cons_self)
          have hplus : UInt8.ofNat (48 + digit) ≠ 43 := by
            intro h
            rw [h] at hdigit
            have : (43 : UInt8).toNat = 43 := rfl
            omega
          have hminus : UInt8.ofNat (48 + digit) ≠ 45 := by
            intro h
            rw [h] at hdigit
            have : (45 : UInt8).toNat = 45 := rfl
            omega
          show exponentSign (UInt8.ofNat (48 + digit) :: (digitBytes digits ++ rest)) = _
          rw [exponentSign, if_neg hplus, if_neg hminus]
          rfl
  | plus => rfl
  | minus => rfl

theorem exponentDigits_sound {text rest : Bytes} {exponent : Option (Bool × List Nat)}
    (h : exponentDigits text = .ok (exponent, rest)) :
    ∃ taken, ExponentText taken exponent ∧ text = taken ++ rest := by
  unfold exponentDigits at h
  split at h
  · cases h
    exact ⟨[], .none, rfl⟩
  · next b tail =>
      split at h
      · next hb =>
          split at h
          · cases h
          · next found hne =>
              cases h
              obtain ⟨sign, hsign, htail⟩ := exponentSign_sound tail
              refine ⟨_, .some hb hsign (isNumeral_leadingDigits hne), ?_⟩
              rw [List.cons_append, List.append_assoc, digitBytes_leadingDigits_append, ← htail]
      · cases h
        exact ⟨[], .none, rfl⟩

theorem exponentDigits_exponentText {text rest : Bytes} {exponent : Option (Bool × List Nat)}
    (h : ExponentText text exponent) (hrest : Ends rest) :
    exponentDigits (text ++ rest) = .ok (exponent, rest) := by
  cases h with
  | none =>
      cases rest with
      | nil => rfl
      | cons b rest =>
          obtain ⟨_, _, hlower, hupper⟩ := hrest b rfl
          simp [exponentDigits, hlower, hupper]
  | some hletter hsign hnumeral =>
      rw [List.cons_append, exponentDigits, if_pos hletter, List.append_assoc,
        exponentSign_signText hsign hnumeral rest]
      have hdigits := digitsEnd_of_ends hrest
      have hleading := leadingDigits_digitBytes hnumeral.2 hdigits
      split
      · next h => exact absurd (hleading.symm.trans h) hnumeral.1
      · rw [hleading, afterDigits_digitBytes hnumeral.2 hdigits]

end Parts

section Literals

theorem digitsEnd_of_fractionText {text : Bytes} {fraction : Option (List Nat)}
    (h : FractionText text fraction) : DigitsEnd text := by
  cases h with
  | none => simp [DigitsEnd]
  | some _ =>
      intro b hb
      cases hb
      decide

theorem digitsEnd_of_exponentText {text : Bytes} {exponent : Option (Bool × List Nat)}
    (h : ExponentText text exponent) : DigitsEnd text := by
  cases h with
  | none => simp [DigitsEnd]
  | some hletter _ _ =>
      intro b hb
      cases hb
      rcases hletter with rfl | rfl <;> decide

/-- Neither an exponent nor what ends a number starts with a point. -/
theorem no_point_of_exponentText {text rest : Bytes} {exponent : Option (Bool × List Nat)}
    (h : ExponentText text exponent) (hrest : Ends rest) : ∀ b ∈ (text ++ rest).head?, b ≠ 46 := by
  intro b hb
  cases h with
  | none => exact (hrest b hb).2.1
  | some hletter _ _ =>
      cases hb
      rcases hletter with rfl | rfl <;> decide

theorem unsignedLiteral_sound {negative : Bool} {text rest : Bytes} {literal : NumberLiteral}
    (h : unsignedLiteral negative text = .ok (literal, rest)) :
    ∃ taken, NumberText ((if negative then [45] else []) ++ taken) literal ∧
      text = taken ++ rest := by
  unfold unsignedLiteral at h
  split at h
  · cases h
  · next whole middle hwhole =>
      obtain ⟨hnumeral, hzero, rfl⟩ := wholeDigits_sound hwhole
      split at h
      · cases h
      · next fraction middle' hfraction =>
          obtain ⟨fractionText, hfractionText, rfl⟩ := fractionDigits_sound hfraction
          split at h
          · cases h
          · next exponent middle'' hexponent =>
              obtain ⟨exponentText, hexponentText, rfl⟩ := exponentDigits_sound hexponent
              cases h
              exact ⟨_, .mk hnumeral hzero hfractionText hexponentText, by simp⟩

/-- A number's text is its sign, if it has one, and digits that are read behind it. -/
theorem unsignedLiteral_of_numberText {text rest : Bytes} {literal : NumberLiteral}
    (h : NumberText text literal) (hrest : Ends rest) :
    ∃ b tail, isDigit b = true ∧
      text = (if literal.negative then [45] else []) ++ b :: tail ∧
      unsignedLiteral literal.negative (b :: (tail ++ rest)) = .ok (literal, rest) := by
  rcases h with ⟨hnumeral, hzero, hfraction, hexponent⟩
  next negative whole fraction exponent fractionText exponentText =>
  obtain ⟨digit, digits, rfl⟩ := List.exists_cons_of_ne_nil hnumeral.1
  have hdigit : UInt8.ofNat (48 + digit) ∈ digitBytes (digit :: digits) := List.mem_cons_self
  refine ⟨UInt8.ofNat (48 + digit), digitBytes digits ++ (fractionText ++ exponentText),
    isDigit_of_mem_digitBytes hnumeral.2 hdigit, rfl, ?_⟩
  have hexponentEnd :=
    digitsEnd_append (digitsEnd_of_exponentText hexponent) (digitsEnd_of_ends hrest)
  have hwhole := wholeDigits_digitBytes hnumeral hzero
    (digitsEnd_append (digitsEnd_of_fractionText hfraction) hexponentEnd)
  have htext : UInt8.ofNat (48 + digit) :: (digitBytes digits ++ (fractionText ++ exponentText) ++
      rest) = digitBytes (digit :: digits) ++ (fractionText ++ (exponentText ++ rest)) := by
    simp [digitBytes]
  rw [htext, unsignedLiteral, hwhole]
  simp only [fractionDigits_fractionText hfraction hexponentEnd
    (no_point_of_exponentText hexponent hrest), exponentDigits_exponentText hexponent hrest]

/-- A number starts with its sign or with a digit. -/
theorem exists_cons_of_numberText {text : Bytes} {literal : NumberLiteral}
    (h : NumberText text literal) : ∃ b tail, text = b :: tail ∧ (b = 45 ∨ isDigit b = true) := by
  have hend : Ends [] := by simp [Ends]
  obtain ⟨b, tail, hb, rfl, -⟩ := unsignedLiteral_of_numberText h hend
  cases literal.negative with
  | false => exact ⟨b, tail, rfl, .inr hb⟩
  | true => exact ⟨45, b :: tail, rfl, .inl rfl⟩

theorem run_numberLiteral_sound {text rest : Bytes} {literal : NumberLiteral}
    (h : numberLiteral.run text = .ok (literal, rest)) :
    ∃ taken, NumberText taken literal ∧ text = taken ++ rest := by
  simp only [numberLiteral] at h
  split at h
  · cases h
  · next b tail =>
      split at h
      · next hb =>
          obtain ⟨taken, htaken, rfl⟩ := unsignedLiteral_sound h
          exact ⟨45 :: taken, htaken, by rw [hb, List.cons_append]⟩
      · obtain ⟨taken, htaken, htext⟩ := unsignedLiteral_sound h
        exact ⟨taken, htaken, htext⟩

theorem run_numberLiteral_of_numberText {text rest : Bytes} {literal : NumberLiteral}
    (h : NumberText text literal) (hrest : Ends rest) :
    numberLiteral.run (text ++ rest) = .ok (literal, rest) := by
  obtain ⟨b, tail, hb, rfl, hrun⟩ := unsignedLiteral_of_numberText h hrest
  cases hnegative : literal.negative with
  | false =>
      rw [hnegative] at hrun
      have hsign : b ≠ 45 := by
        rintro rfl
        cases hb
      simp only [Bool.false_eq_true, if_false, List.nil_append, List.cons_append, numberLiteral,
        if_neg hsign]
      exact hrun
  | true =>
      rw [hnegative] at hrun
      simpa [numberLiteral] using hrun

end Literals

end Reader

namespace NumberLiteral

theorem real_ne_integer (literal : NumberLiteral) (n : Int) :
    literal.real ≠ .ok (.integer n) := by
  intro h
  simp only [real] at h
  split at h <;> cases h

/-- Digits without a fraction or an exponent have a value of their own as long as 64 bits hold
it; longer ones are rounded. -/
theorem value_of_whole {literal : NumberLiteral} (hfraction : literal.fraction = none)
    (hexponent : literal.exponent = none) :
    literal.value =
      if Decimal.ofDigits literal.whole < 0x10000000000000000 then
        if literal.negative then
          if 0 < Decimal.ofDigits literal.whole ∧
              Decimal.ofDigits literal.whole ≤ 0x8000000000000000 then
            .ok (.integer (-(Decimal.ofDigits literal.whole : Int)))
          else literal.real
        else .ok (.integer (Decimal.ofDigits literal.whole))
      else literal.real := by
  simp only [value, hfraction, hexponent, Option.isSome_none, Bool.or_false, Bool.false_eq_true,
    if_false]
  by_cases hfits : Decimal.ofDigits literal.whole < 0x10000000000000000
  · rw [leadingValue_of_lt 0 0 literal.whole hfits, if_pos hfits, Nat.zero_add]
    simp only [Nat.lt_irrefl, if_false]
    rfl
  · have hcount := leadingValue_count_lt 0 0 literal.whole (by decide) (Nat.not_lt.1 hfits)
    rw [if_neg hfits, if_pos (by omega)]

/-- A literal is read as an integer exactly when it denotes one. -/
theorem value_eq_integer_iff {literal : NumberLiteral} {n : Int} :
    literal.value = .ok (.integer n) ↔ Denotes literal n := by
  apply Iff.intro
  · intro h
    have hparts : literal.fraction = none ∧ literal.exponent = none := by
      by_contra hparts
      have hsome : (literal.fraction.isSome || literal.exponent.isSome) = true := by
        rw [← Option.not_isSome_iff_eq_none, ← Option.not_isSome_iff_eq_none] at hparts
        simp only [Bool.or_eq_true]
        by_contra hnone
        exact hparts (not_or.1 hnone)
      rw [value, if_pos hsome] at h
      exact real_ne_integer literal n h
    rcases hparts with ⟨hfraction, hexponent⟩
    rw [value_of_whole hfraction hexponent] at h
    split at h
    · next hfits =>
        split at h
        · next hnegative =>
            split at h
            · cases h
              exact ⟨hfraction, hexponent, by rw [if_pos hnegative], fun _ => by omega, by omega⟩
            · exact absurd h (real_ne_integer literal n)
        · next hnegative =>
            cases h
            exact ⟨hfraction, hexponent, by rw [if_neg hnegative], fun h => absurd h hnegative,
              by omega⟩
    · exact absurd h (real_ne_integer literal n)
  · intro h
    rcases h with ⟨hfraction, hexponent, hvalue, hzero, hlow, hhigh⟩
    rw [value_of_whole hfraction hexponent]
    cases hnegative : literal.negative with
    | false =>
        simp only [hnegative, Bool.false_eq_true, if_false] at hvalue ⊢
        rw [if_pos (by omega), hvalue]
    | true =>
        simp only [hnegative, if_true] at hvalue ⊢
        have := hzero hnegative
        rw [if_pos (by omega), if_pos (by omega), hvalue]

end NumberLiteral

namespace Reader

/-- The number at the front of a text is read exactly when its text stands there. -/
theorem run_number_sound {text rest : Bytes} {value : JsonNumber}
    (h : number.run text = .ok (value, rest)) :
    ∃ taken, ValueText taken (.number value) ∧ text = taken ++ rest := by
  obtain ⟨literal, middle, hliteral, hrest⟩ := run_bind_eq_ok.1 h
  obtain ⟨taken, htaken, rfl⟩ := run_numberLiteral_sound hliteral
  obtain ⟨hvalue, rfl⟩ := run_ofExcept_eq_ok.1 hrest
  refine ⟨taken, ?_, rfl⟩
  cases value with
  | integer n => exact .integer htaken (NumberLiteral.value_eq_integer_iff.1 hvalue)
  | real x => exact .real htaken hvalue

theorem run_number_of_literal {text rest : Bytes} {literal : NumberLiteral} {value : JsonNumber}
    (h : NumberText text literal) (hvalue : literal.value = .ok value) (hrest : Ends rest) :
    number.run (text ++ rest) = .ok (value, rest) :=
  run_bind_eq_ok.2 ⟨literal, rest, run_numberLiteral_of_numberText h hrest,
    run_ofExcept_eq_ok.2 ⟨hvalue, rfl⟩⟩

end Reader

end InterfaceProbe
