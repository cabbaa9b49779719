/-
# What is written against the grammar

The text that `Json.compact` writes, part by part: a literal denotes the
string it was written for, a numeral denotes its integer, and separated members
between brackets are the members of a container.  Decimals of rounded numbers
are left out; the wire form has none.
-/

import InterfaceProbe.Proofs.Json.WholeValue

namespace InterfaceProbe

open Grammar

section Bytes

@[simp] theorem utf8_append (first second : String) :
    utf8 (first ++ second) = utf8 first ++ utf8 second := by
  simp [utf8, String.toByteArray_append]

theorem utf8_ofList (chars : List Char) :
    utf8 (String.ofList chars) = chars.flatMap String.utf8EncodeChar := by
  rw [utf8, String.toByteArray_ofList, List.utf8Encode, List.data_toByteArray,
    List.toList_toArray]

theorem utf8_eq_flatMap (text : String) :
    utf8 text = text.toList.flatMap String.utf8EncodeChar := by
  rw [← utf8_ofList, String.ofList_toList]

end Bytes

namespace Grammar

section Strings

theorem Pieces.append {first second firstBytes secondBytes : Bytes}
    (hfirst : Pieces first firstBytes) (hsecond : Pieces second secondBytes) :
    Pieces (first ++ second) (firstBytes ++ secondBytes) := by
  induction hfirst with
  | nil => exact hsecond
  | cons hpiece _ ih =>
      rw [List.append_assoc, List.append_assoc]
      exact .cons hpiece ih

theorem Piece.pieces {text bytes : Bytes} (h : Piece text bytes) : Pieces text bytes := by
  have hpieces := Pieces.cons h .nil
  rwa [List.append_nil, List.append_nil] at hpieces

theorem pieces_of_plain {bytes : Bytes} (h : ∀ b ∈ bytes, IsPlain b) : Pieces bytes bytes := by
  induction bytes with
  | nil => exact .nil
  | cons b bytes ih =>
      have hrest := ih fun c hc => h c (List.mem_cons_of_mem b hc)
      exact .cons (.plain (h b List.mem_cons_self)) hrest

/-- The bytes of a character are plain unless it is a control character or special. -/
theorem isPlain_of_mem_utf8EncodeChar {c : Char} (hquote : c ≠ '\"') (hbackslash : c ≠ '\\')
    (hcontrol : 32 ≤ c.toNat) {b : UInt8} (hb : b ∈ String.utf8EncodeChar c) : IsPlain b := by
  have hhigh {n : Nat} (hn : 0x80 ≤ n) (hn' : n < 0x100) : IsPlain (UInt8.ofNat n) := by
    have hvalue : (UInt8.ofNat n).toNat = n := by
      rw [UInt8.toNat_ofNat']
      omega
    refine ⟨by omega, ?_, ?_⟩ <;> rw [Ne, ← UInt8.toNat_inj, hvalue] <;> simp <;> omega
  have hchar : c.val.toNat = c.toNat := rfl
  simp only [String.utf8EncodeChar, hchar] at hb
  split at hb
  · next hascii =>
      obtain rfl := List.mem_singleton.1 hb
      have hvalue : (UInt8.ofNat c.toNat).toNat = c.toNat := by
        rw [UInt8.toNat_ofNat']
        omega
      have hne (d : Char) (hd : c ≠ d) : c.toNat ≠ d.toNat := fun h => hd (Char.toNat_inj.1 h)
      refine ⟨by omega, ?_, ?_⟩ <;> rw [Ne, ← UInt8.toNat_inj, hvalue]
      · exact hne _ hquote
      · exact hne _ hbackslash
  · split at hb
    · simp only [List.mem_cons, List.not_mem_nil, or_false] at hb
      rcases hb with rfl | rfl <;> apply hhigh <;> omega
    · split at hb
      · simp only [List.mem_cons, List.not_mem_nil, or_false] at hb
        rcases hb with rfl | rfl | rfl <;> apply hhigh <;> omega
      · simp only [List.mem_cons, List.not_mem_nil, or_false] at hb
        rcases hb with rfl | rfl | rfl | rfl <;> apply hhigh <;> omega

theorem hexDigit_hexDigit (n : Nat) (h : n < 16) :
    ∃ b, String.utf8EncodeChar (hexDigit n) = [b] ∧ HexDigit b n := by
  refine ⟨UInt8.ofNat (if n < 10 then 48 + n else 87 + n), ?_⟩
  unfold HexDigit
  revert n
  decide

/-- Two hexadecimal digits behind two zeros are the escape of a character below the blank. -/
theorem pieces_of_control {c : Char} (h : c.toNat < 32) :
    Pieces (['\\', 'u', '0', '0', hexDigit (c.toNat / 16), hexDigit (c.toNat % 16)].flatMap
      String.utf8EncodeChar) (String.utf8EncodeChar c) := by
  obtain ⟨high, hhigh, hhighDigit⟩ := hexDigit_hexDigit (c.toNat / 16) (by omega)
  obtain ⟨low, hlow, hlowDigit⟩ := hexDigit_hexDigit (c.toNat % 16) (by omega)
  have hzero : HexDigit 48 0 := .inl ⟨by decide, rfl⟩
  have hpiece := Piece.unit (.mk hzero hzero hhighDigit hlowDigit) (by omega)
  have hvalue : ((0 * 16 + 0) * 16 + c.toNat / 16) * 16 + c.toNat % 16 = c.toNat := by omega
  rw [hvalue, Char.ofNat_toNat] at hpiece
  simp only [List.flatMap_cons, List.flatMap_nil, hhigh, hlow]
  exact hpiece.pieces

/-- What a character is written as stands for the bytes of the character. -/
theorem pieces_of_escaped (c : Char) :
    Pieces ((escaped c).flatMap String.utf8EncodeChar) (String.utf8EncodeChar c) := by
  have hshort {letter b : UInt8} (h : ShortEscape letter b) : Pieces [92, letter] [b] :=
    (Piece.short h).pieces
  unfold escaped
  split
  · next h =>
      subst h
      exact hshort .quote
  split
  · next h =>
      subst h
      exact hshort .backslash
  split
  · next h =>
      subst h
      exact hshort .lineFeed
  split
  · next h =>
      subst h
      exact hshort .carriageReturn
  split
  · next h =>
      subst h
      exact hshort .tab
  split
  · next h =>
      subst h
      exact hshort .backspace
  split
  · next h =>
      subst h
      exact hshort .formFeed
  split
  · next h => exact pieces_of_control h
  · next hquote hbackslash _ _ _ _ _ hcontrol =>
      rw [List.flatMap_singleton]
      exact pieces_of_plain fun b hb =>
        isPlain_of_mem_utf8EncodeChar hquote hbackslash (Nat.not_lt.1 hcontrol) hb

/-- The literal of a text denotes the text. -/
theorem stringText_quoted (text : String) : StringText (utf8 (quoted text)) text := by
  have hinside (chars : List Char) :
      Pieces ((chars.flatMap escaped).flatMap String.utf8EncodeChar)
        (chars.flatMap String.utf8EncodeChar) := by
    induction chars with
    | nil => exact .nil
    | cons c chars ih =>
        rw [List.flatMap_cons, List.flatMap_cons, List.flatMap_append]
        exact (pieces_of_escaped c).append ih
  refine ⟨utf8 (String.ofList (text.toList.flatMap escaped)), ?_, ?_⟩
  · rw [utf8_ofList, utf8_eq_flatMap text]
    exact hinside text.toList
  · rw [quoted, utf8_append, utf8_append, List.append_assoc]
    rfl

end Strings

section Numbers

open Decimal

theorem utf8_numeral (n : Nat) : utf8 (numeral n) = digitBytes (digitsOf n) := by
  have hdigit : ∀ digit < 10, String.utf8EncodeChar (digitChar digit) =
      [UInt8.ofNat (48 + digit)] := by decide
  rw [numeral, utf8_ofList, List.flatMap_map, digitBytes, List.map_eq_flatMap]
  exact List.flatMap_congr fun digit h => hdigit digit (digit_lt_ten h)

/-- Digits are written without leading zeros. -/
theorem digitsOf_of_head?_eq_zero {n : Nat} (h : (digitsOf n).head? = some 0) :
    digitsOf n = [0] := by
  induction n using Nat.strongRecOn with
  | _ n ih =>
      rw [digitsOf] at h ⊢
      split at h
      · next hsmall =>
          cases h
          rfl
      · next hlarge =>
          exfalso
          have hne : digitsOf (n / 10) ≠ [] := by
            rw [digitsOf]
            split <;> simp
          rw [List.head?_append_of_ne_nil _ hne] at h
          have hzero := ofDigits_digitsOf (n / 10)
          rw [ih (n / 10) (by omega) h] at hzero
          simp only [ofDigits, List.foldl_cons, List.foldl_nil] at hzero
          omega

theorem isNumeral_digitsOf (n : Nat) : IsNumeral (digitsOf n) := by
  refine ⟨?_, fun digit h => digit_lt_ten h⟩
  rw [digitsOf]
  split <;> simp

theorem utf8_signedNumeral (n : Int) :
    utf8 (signedNumeral n) =
      (if decide (n < 0) then [45] else []) ++ digitBytes (digitsOf n.natAbs) := by
  unfold signedNumeral
  by_cases h : n < 0
  · rw [if_pos h, utf8_append, utf8_numeral]
    simp only [h, decide_true, if_true]
    rfl
  · rw [if_neg h, utf8_numeral]
    simp [h]

/-- The numeral of an integer of 64 bits denotes the integer. -/
theorem valueText_signedNumeral {n : Int} (hlow : -2 ^ 63 ≤ n) (hhigh : n < 2 ^ 64) :
    ValueText (utf8 (signedNumeral n)) (.int n) := by
  have htext : NumberText (utf8 (signedNumeral n))
      ⟨decide (n < 0), digitsOf n.natAbs, none, none⟩ := by
    rw [utf8_signedNumeral]
    exact (isNumeral_digitsOf n.natAbs).numberText digitsOf_of_head?_eq_zero _
  refine .integer htext ⟨rfl, rfl, ?_, fun hnegative => ?_, hlow, hhigh⟩
  · simp only [ofDigits_digitsOf, decide_eq_true_eq]
    split <;> omega
  · have := of_decide_eq_true hnegative
    omega

end Numbers

section Containers

/-- Texts between brackets. -/
def bracketed (items : List Bytes) : Bytes := 91 :: ([44].intercalate items ++ [93])

/-- Keys and the texts of their values between braces. -/
def braced (members : List (String × Bytes)) : Bytes :=
  123 :: ([44].intercalate (members.map fun member => utf8 (quoted member.1) ++ 58 :: member.2) ++
    [125])

/-- Texts with commas between them and a closing byte are the first text and what follows a
member, with white space behind the commas and at the end. -/
theorem exists_further_of_intercalate {after last : Bytes} (hafter : Blank after)
    (hlast : Blank last) (close : UInt8) (first : Bytes) (texts : List Bytes) :
    ∃ text, Further close texts text ∧
      (44 :: after).intercalate (first :: texts) ++ (last ++ [close]) = first ++ text := by
  induction texts generalizing first with
  | nil => exact ⟨last ++ [close], .close hlast, by simp⟩
  | cons next texts ih =>
      obtain ⟨text, htext, heq⟩ := ih next
      refine ⟨_, .comma Blank.nil hafter htext, ?_⟩
      rw [List.intercalate_cons_cons, List.append_assoc, List.append_assoc, heq]
      rfl

/-- Texts with commas between them and a closing byte are the members of a container. -/
theorem members_of_intercalate (close : UInt8) (texts : List Bytes) :
    Members close texts ([44].intercalate texts ++ [close]) := by
  cases texts with
  | nil => exact .none Blank.nil
  | cons first texts =>
      obtain ⟨text, htext, heq⟩ :=
        exists_further_of_intercalate Blank.nil Blank.nil close first texts
      exact heq ▸ .some Blank.nil htext

theorem arrayText_bracketed (items : List Bytes) : ArrayText items (bracketed items) :=
  ⟨_, members_of_intercalate 93 items, rfl⟩

theorem objectText_braced (members : List (String × Bytes)) :
    ObjectText (members.map fun member => (utf8 (quoted member.1), member.2)) (braced members) := by
  refine ⟨_, _, ?_, members_of_intercalate 125 _, rfl⟩
  rw [List.forall₂_map_left_iff, List.forall₂_map_right_iff, List.forall₂_same]
  exact fun member _ => ⟨[], [], Blank.nil, Blank.nil, rfl⟩

/-- Texts between brackets. -/
def bracketedTexts (items : List String) : String := "[" ++ separated "," items ++ "]"

/-- Keys and the texts of their values between braces. -/
def bracedTexts (members : List (String × String)) : String :=
  "\x7b" ++ separated "," (members.map fun member => quoted member.1 ++ ":" ++ member.2) ++ "\x7d"

theorem utf8_separated (separator : String) (texts : List String) :
    utf8 (separated separator texts) = (utf8 separator).intercalate (texts.map utf8) := by
  induction texts using separated.induct with
  | case1 => rfl
  | case2 text => simp [separated]
  | case3 text next rest ih =>
      rw [separated, utf8_append, utf8_append, ih]
      simp only [List.map_cons, List.intercalate_cons_cons]

theorem utf8_bracketedTexts (items : List String) :
    utf8 (bracketedTexts items) = bracketed (items.map utf8) := by
  rw [bracketedTexts, utf8_append, utf8_append, utf8_separated, List.append_assoc]
  rfl

theorem utf8_bracedTexts (members : List (String × String)) :
    utf8 (bracedTexts members) = braced (members.map fun member => (member.1, utf8 member.2)) := by
  rw [bracedTexts, utf8_append, utf8_append, utf8_separated, List.append_assoc, braced,
    List.map_map, List.map_map]
  simp only [Function.comp_def, utf8_append, List.append_assoc]
  rfl

theorem arrayText_bracketedTexts (items : List String) :
    ArrayText (items.map utf8) (utf8 (bracketedTexts items)) := by
  rw [utf8_bracketedTexts]
  exact arrayText_bracketed _

theorem objectText_bracedTexts (members : List (String × String)) :
    ObjectText (members.map fun member => (utf8 (quoted member.1), utf8 member.2))
      (utf8 (bracedTexts members)) := by
  have h := objectText_braced (members.map fun member => (member.1, utf8 member.2))
  rwa [List.map_map, ← utf8_bracedTexts] at h

theorem compact_array (items : List Json) :
    (Json.array items).compact = bracketedTexts (items.map Json.compact) := by
  rw [Json.compact, Json.compactItems_eq_map, bracketedTexts]

theorem compact_object (entries : List (String × Json)) :
    (Json.object entries).compact =
      bracedTexts (entries.map fun entry => (entry.1, entry.2.compact)) := by
  rw [Json.compact, Json.compactEntries_eq_map, bracedTexts, List.map_map]
  rfl

end Containers

end Grammar

end InterfaceProbe
