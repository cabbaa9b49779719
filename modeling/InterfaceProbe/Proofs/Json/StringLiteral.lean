/-
# Reading string literals against the grammar

The reader of literals takes exactly the texts of `StringText`.  Escapes are
settled first, one lemma for each function that reads a part of one; the loop
over a literal then only has to tell quotes, escapes and plain bytes apart.
The last step compares the collected bytes with the UTF-8 form of a string.
-/

import InterfaceProbe.Proofs.Json.Reading

namespace InterfaceProbe

open Grammar

/-- Bytes are valid UTF-8 for a string exactly when they are that string's bytes. -/
theorem fromUTF8?_toByteArray_eq_some_iff {bytes : Bytes} {value : String} :
    String.fromUTF8? bytes.toByteArray = some value ↔ bytes = utf8 value := by
  simp only [String.fromUTF8?, Option.dite_none_right_eq_some, Option.some.injEq]
  apply Iff.intro
  · intro h
    rcases h with ⟨_, rfl⟩
    simp [utf8, String.fromUTF8]
  · intro h
    have harray : bytes.toByteArray = value.toByteArray := by
      apply ByteArray.ext
      rw [h, List.data_toByteArray, utf8, Array.toArray_toList]
    refine ⟨harray ▸ value.isValidUTF8, ?_⟩
    apply String.toByteArray_inj.1
    simpa [String.fromUTF8] using harray

namespace Reader

section Escapes

theorem hexValue?_eq_some_iff {b : UInt8} {n : Nat} : hexValue? b = some n ↔ HexDigit b n := by
  simp only [hexValue?, HexDigit, UInt8.le_iff_toNat_le, UInt8.reduceToNat]
  split
  · simp only [Option.some.injEq]
    omega
  · split
    · simp only [Option.some.injEq]
      omega
    · split
      · simp only [Option.some.injEq]
        omega
      · simp only [reduceCtorEq, false_iff]
        omega

theorem hexQuad_eq_ok_iff {text rest : Bytes} {unit : Nat} :
    hexQuad text = .ok (unit, rest) ↔ ∃ digits, HexQuad digits unit ∧ text = digits ++ rest := by
  apply Iff.intro
  · intro h
    unfold hexQuad at h
    split at h
    · next a b c d tail =>
        split at h
        · next i j k l ha hb hc hd =>
            cases h
            refine ⟨[a, b, c, d], .mk ?_ ?_ ?_ ?_, rfl⟩
            · exact hexValue?_eq_some_iff.1 ha
            · exact hexValue?_eq_some_iff.1 hb
            · exact hexValue?_eq_some_iff.1 hc
            · exact hexValue?_eq_some_iff.1 hd
        · cases h
    · cases h
  · intro h
    rcases h with ⟨_, ⟨ha, hb, hc, hd⟩, rfl⟩
    simp only [List.cons_append, List.nil_append, hexQuad, hexValue?_eq_some_iff.2 ha,
      hexValue?_eq_some_iff.2 hb, hexValue?_eq_some_iff.2 hc, hexValue?_eq_some_iff.2 hd]

theorem shortEscape?_eq_some_iff {letter b : UInt8} :
    shortEscape? letter = some b ↔ ShortEscape letter b := by
  apply Iff.intro
  · intro h
    unfold shortEscape? at h
    repeat' split at h
    all_goals cases h
    all_goals subst letter
    · exact .quote
    · exact .backslash
    · exact .slash
    · exact .backspace
    · exact .formFeed
    · exact .lineFeed
    · exact .carriageReturn
    · exact .tab
  · intro h
    cases h <;> rfl

/-- A code unit outside the surrogates stands alone. -/
theorem unicodeEscape_of_unit {digits : Bytes} {n : Nat} (hdigits : HexQuad digits n)
    (hn : ¬ (0xD800 ≤ n ∧ n ≤ 0xDFFF)) (rest : Bytes) :
    unicodeEscape (digits ++ rest) = .ok (String.utf8EncodeChar (Char.ofNat n), rest) := by
  have htrailing : isTrailing n = false := by
    simp only [isTrailing, Bool.and_eq_false_iff, decide_eq_false_iff_not]
    omega
  have hleading : isLeading n = false := by
    simp only [isLeading, Bool.and_eq_false_iff, decide_eq_false_iff_not]
    omega
  simp [unicodeEscape, hexQuad_eq_ok_iff.2 ⟨digits, hdigits, rfl⟩, htrailing, hleading,
    codePointBytes]

/-- A leading surrogate takes the escape of a trailing one along. -/
theorem unicodeEscape_of_pair {leading trailing : Bytes} {high low : Nat}
    (hleading : HexQuad leading (0xD800 + high)) (htrailing : HexQuad trailing (0xDC00 + low))
    (hhigh : high < 0x400) (hlow : low < 0x400) (rest : Bytes) :
    unicodeEscape (leading ++ 92 :: 117 :: (trailing ++ rest)) =
      .ok (String.utf8EncodeChar (Char.ofNat (0x10000 + high * 0x400 + low)), rest) := by
  have hfirst : isTrailing (0xD800 + high) = false := by
    simp only [isTrailing, Bool.and_eq_false_iff, decide_eq_false_iff_not]
    omega
  have hlead : isLeading (0xD800 + high) = true := by
    simp only [isLeading, Bool.and_eq_true, decide_eq_true_eq]
    omega
  have hsecond : isTrailing (0xDC00 + low) = true := by
    simp only [isTrailing, Bool.and_eq_true, decide_eq_true_eq]
    omega
  simp [unicodeEscape, hexQuad_eq_ok_iff.2 ⟨leading, hleading, rfl⟩,
    hexQuad_eq_ok_iff.2 ⟨trailing, htrailing, rfl⟩, hfirst, hlead, hsecond, codePointBytes]

theorem unicodeEscape_sound {text rest bytes : Bytes}
    (h : unicodeEscape text = .ok (bytes, rest)) :
    ∃ taken, Piece (92 :: 117 :: taken) bytes ∧ text = taken ++ rest := by
  unfold unicodeEscape at h
  split at h
  · cases h
  · next n middle hunit =>
      obtain ⟨digits, hdigits, rfl⟩ := hexQuad_eq_ok_iff.1 hunit
      split at h
      · cases h
      · next htrailing =>
          simp only [isTrailing, Bool.and_eq_true, decide_eq_true_eq] at htrailing
          split at h
          · next hleading =>
              simp only [isLeading, Bool.and_eq_true, decide_eq_true_eq] at hleading
              split at h
              · cases h
              · split at h <;> cases h
              · next b c tail =>
                  split at h
                  · next hescape =>
                      rcases hescape with ⟨rfl, rfl⟩
                      split at h
                      · cases h
                      · next m middle hsecond =>
                          obtain ⟨others, hothers, rfl⟩ := hexQuad_eq_ok_iff.1 hsecond
                          split at h
                          · next hm =>
                              simp only [isTrailing, Bool.and_eq_true, decide_eq_true_eq] at hm
                              simp only [Except.ok.injEq, Prod.mk.injEq] at h
                              rcases h with ⟨rfl, rfl⟩
                              refine ⟨digits ++ 92 :: 117 :: others, ?_, by simp⟩
                              apply Piece.pair
                              · rwa [Nat.add_sub_of_le hleading.1]
                              · rwa [Nat.add_sub_of_le hm.1]
                              · omega
                              · omega
                          · cases h
                  · cases h
          · next hleading =>
              simp only [isLeading, Bool.and_eq_true, decide_eq_true_eq] at hleading
              cases h
              exact ⟨digits, .unit hdigits (by omega), rfl⟩

theorem escapeBytes_sound {text rest bytes : Bytes} (h : escapeBytes text = .ok (bytes, rest)) :
    ∃ taken, Piece (92 :: taken) bytes ∧ text = taken ++ rest := by
  cases text with
  | nil => cases h
  | cons letter tail =>
      simp only [escapeBytes] at h
      split at h
      · next hletter =>
          obtain ⟨taken, htaken, rfl⟩ := unicodeEscape_sound h
          exact ⟨117 :: taken, htaken, by rw [hletter, List.cons_append]⟩
      · split at h
        · next b hshort =>
            simp only [Except.ok.injEq, Prod.mk.injEq] at h
            rcases h with ⟨rfl, rfl⟩
            exact ⟨[letter], .short (shortEscape?_eq_some_iff.1 hshort), rfl⟩
        · cases h

theorem escapeBytes_of_short {letter b : UInt8} (h : ShortEscape letter b) (rest : Bytes) :
    escapeBytes (letter :: rest) = .ok ([b], rest) := by
  have hletter : letter ≠ 117 := by
    rintro rfl
    cases h
  simp [escapeBytes, hletter, shortEscape?_eq_some_iff.2 h]

end Escapes

section Literals

theorem literalFrom_plain {b : UInt8} (h : IsPlain b) (collected text : Bytes) :
    literalFrom collected (b :: text) = literalFrom (b :: collected) text := by
  have hcontrol : ¬ b < 32 := by
    rw [UInt8.lt_iff_toNat_lt]
    exact Nat.not_lt.2 h.1
  rw [literalFrom]
  simp [h.2.1, h.2.2, hcontrol]

theorem literalFrom_escape {text rest bytes : Bytes} (h : escapeBytes text = .ok (bytes, rest))
    (collected : Bytes) :
    literalFrom collected (92 :: text) = literalFrom (bytes.reverse ++ collected) rest := by
  rw [literalFrom]
  simp only [show (92 : UInt8) ≠ 34 by decide, if_false, if_true]
  split
  · next hfault => simp [h] at hfault
  · next hfound =>
      rw [h] at hfound
      cases hfound
      rfl

/-- One piece is collected in front of the rest of the literal. -/
theorem literalFrom_piece {text bytes : Bytes} (h : Piece text bytes) (collected rest : Bytes) :
    literalFrom collected (text ++ rest) = literalFrom (bytes.reverse ++ collected) rest := by
  cases h with
  | plain hb => exact literalFrom_plain hb collected rest
  | short hletter => exact literalFrom_escape (escapeBytes_of_short hletter rest) collected
  | unit hdigits hn =>
      apply literalFrom_escape
      exact unicodeEscape_of_unit hdigits hn rest
  | pair hleading htrailing hhigh hlow =>
      apply literalFrom_escape
      have h := unicodeEscape_of_pair hleading htrailing hhigh hlow rest
      simpa [escapeBytes] using h

theorem literalFrom_pieces {text bytes : Bytes} (h : Pieces text bytes) (collected rest : Bytes) :
    literalFrom collected (text ++ 34 :: rest) = .ok (collected.reverse ++ bytes, rest) := by
  induction h generalizing collected with
  | nil => simp [literalFrom]
  | cons hpiece _ ih => simp [literalFrom_piece hpiece, ih]

theorem literalFrom_sound {collected text bytes rest : Bytes}
    (h : literalFrom collected text = .ok (bytes, rest)) :
    ∃ inside body, Pieces inside body ∧ bytes = collected.reverse ++ body ∧
      text = inside ++ 34 :: rest := by
  fun_induction literalFrom collected text with
  | case1 | case3 | case5 => cases h
  | case2 =>
      cases h
      exact ⟨[], [], .nil, by simp, rfl⟩
  | case4 collected middle found rest' hescape _ ih =>
      obtain ⟨inside, body, hinside, rfl, rfl⟩ := ih h
      obtain ⟨taken, htaken, rfl⟩ := escapeBytes_sound hescape
      exact ⟨92 :: taken ++ inside, found ++ body, .cons htaken hinside, by simp, by simp⟩
  | case6 collected b middle hquote hescape hcontrol ih =>
      obtain ⟨inside, body, hinside, rfl, rfl⟩ := ih h
      rw [UInt8.lt_iff_toNat_lt, Nat.not_lt] at hcontrol
      exact ⟨b :: inside, b :: body, .cons (.plain ⟨hcontrol, hquote, hescape⟩) hinside,
        by simp, rfl⟩

/-- A literal is read behind its opening quote exactly when its text stands there. -/
theorem run_literal_eq_ok {text rest : Bytes} {value : String} :
    literal.run text = .ok (value, rest) ↔
      ∃ inside, Pieces inside (utf8 value) ∧ text = inside ++ 34 :: rest := by
  apply Iff.intro
  · intro h
    obtain ⟨bytes, middle, hbytes, hvalue⟩ := run_bind_eq_ok.1 h
    obtain ⟨inside, body, hinside, rfl, rfl⟩ := literalFrom_sound hbytes
    split at hvalue
    · next found hfound =>
        cases hvalue
        rw [fromUTF8?_toByteArray_eq_some_iff] at hfound
        exact ⟨inside, hfound ▸ hinside, rfl⟩
    · cases hvalue
  · intro h
    rcases h with ⟨inside, hinside, rfl⟩
    refine run_bind_eq_ok.2 ⟨utf8 value, rest, literalFrom_pieces hinside [] rest, ?_⟩
    rw [fromUTF8?_toByteArray_eq_some_iff.2 rfl]
    rfl

/-- What is read behind an opening quote is, with the quote, the text of the string. -/
theorem run_literal_sound {tail rest : Bytes} {value : String}
    (h : literal.run tail = .ok (value, rest)) :
    ∃ taken, StringText taken value ∧ 34 :: tail = taken ++ rest := by
  obtain ⟨inside, hinside, rfl⟩ := run_literal_eq_ok.1 h
  exact ⟨34 :: (inside ++ [34]), ⟨inside, hinside, rfl⟩, by simp⟩

theorem run_literal_of_stringText {text : Bytes} {value : String} (h : StringText text value)
    (rest : Bytes) :
    ∃ tail, text = 34 :: tail ∧ literal.run (tail ++ rest) = .ok (value, rest) := by
  rcases h with ⟨inside, hinside, rfl⟩
  exact ⟨inside ++ [34], rfl, run_literal_eq_ok.2 ⟨inside, hinside, by simp⟩⟩

end Literals

end Reader

end InterfaceProbe
