/-
# Lengths of array types

The length of an array type has 64 bits with a sign.  A number literal in its place is
read as the integer it is written for, digit by digit and however long it is, or the
report is rejected: no length is wrapped around or rounded, and one with a fraction or
an exponent is refused even where it would be an integer.

Where the array type stands, and in which layout, does not matter.  All that is asked of
the rest of the report is that it can be read with some value in that place, which may
be null.
-/

import InterfaceProbe.Proofs.Wire.ReadingAround
import InterfaceProbe.Proofs.Wire.RoundTrip
import Mathlib.Data.List.Induction

namespace InterfaceProbe

open Grammar Reader

section Literals

/-- The integer that the sign and the digits of a literal are written for. -/
def NumberLiteral.integer (literal : NumberLiteral) : Int :=
  if literal.negative then -(Decimal.ofDigits literal.whole : Int)
  else Decimal.ofDigits literal.whole

/-- The literal is that of an integer of 64 bits with a sign, and not minus zero. -/
structure IsLength (text : Bytes) (literal : NumberLiteral) : Prop where
  fraction : literal.fraction = none
  exponent : literal.exponent = none
  not_minus_zero : text ≠ utf8 "-0"
  low : -2 ^ 63 ≤ literal.integer
  high : literal.integer ≤ 2 ^ 63 - 1

variable {text : Bytes} {literal : NumberLiteral}

theorem numberText_unique {other : NumberLiteral} (h : NumberText text literal)
    (hother : NumberText text other) : literal = other := by
  have hrun := run_numberLiteral_of_numberText h ends_nil
  have hrunOther := run_numberLiteral_of_numberText hother ends_nil
  cases hrun.symm.trans hrunOther
  rfl

theorem eq_zero_of_ofDigits_eq_zero {digits : List Nat} (h : Decimal.ofDigits digits = 0) :
    ∀ digit ∈ digits, digit = 0 := by
  induction digits using List.reverseRecOn with
  | nil => exact fun digit hdigit => absurd hdigit List.not_mem_nil
  | append_singleton digits last ih =>
      rw [Decimal.ofDigits_concat] at h
      rw [List.forall_mem_append, List.forall_mem_singleton]
      exact ⟨ih (by omega), by omega⟩

/-- Minus zero is written in one way when it has neither a fraction nor an exponent. -/
theorem eq_minus_zero (h : NumberText text literal) (hfraction : literal.fraction = none)
    (hexponent : literal.exponent = none) (hnegative : literal.negative = true)
    (hzero : Decimal.ofDigits literal.whole = 0) : text = utf8 "-0" := by
  cases h with
  | @mk negative whole fraction exponent fractionText exponentText hwhole hhead hfractionText
      hexponentText =>
      obtain rfl : negative = true := hnegative
      obtain rfl : fraction = none := hfraction
      obtain rfl : exponent = none := hexponent
      cases hfractionText
      cases hexponentText
      obtain ⟨digit, digits, rfl⟩ := List.exists_cons_of_ne_nil hwhole.1
      obtain rfl : digit = 0 := eq_zero_of_ofDigits_eq_zero hzero digit List.mem_cons_self
      rw [hhead rfl]
      rfl

/-- A literal denotes a length exactly when it is one. -/
theorem isLength_iff (h : NumberText text literal) :
    IsLength text literal ↔ ∃ n : Int64, Denotes literal n.toInt := by
  apply Iff.intro
  · intro hlength
    have hrange : literal.integer < 2 ^ 63 := by
      have := hlength.high
      omega
    refine ⟨Int64.ofInt literal.integer, ?_⟩
    rw [Int64.toInt_ofInt_of_le hlength.low hrange]
    refine ⟨hlength.fraction, hlength.exponent, rfl, fun hnegative hzero => ?_, hlength.low,
      Int.lt_trans hrange (by decide)⟩
    refine hlength.not_minus_zero
      (eq_minus_zero h hlength.fraction hlength.exponent hnegative ?_)
    rw [NumberLiteral.integer, if_pos hnegative] at hzero
    omega
  · rintro ⟨n, hdenotes⟩
    have hvalue : literal.integer = n.toInt := hdenotes.value.symm
    refine ⟨hdenotes.fraction, hdenotes.exponent, ?_, hvalue ▸ n.le_toInt, ?_⟩
    · rintro rfl
      have hminus : NumberText (utf8 "-0") ⟨true, [0], none, none⟩ :=
        IsNumeral.numberText ⟨by simp, by simp⟩ (fun _ => rfl) true
      obtain rfl := numberText_unique h hminus
      exact hdenotes.not_minus_zero rfl hdenotes.value
    · have := n.toInt_lt
      omega

/-- A number in the place of a length is read as the length it denotes. -/
theorem treeText_length_iff {levels : Nat} (h : NumberText text literal) {len : Option Int64} :
    TreeText levels text (.optional .int64) len ↔
      ∃ n : Int64, len = some n ∧ Denotes literal n.toInt := by
  apply Iff.intro
  · rintro ⟨tree, htree, -, hmeaning⟩
    cases htree with
    | @integer _ other m hliteral hdenotes =>
        obtain ⟨n, rfl, heq⟩ := hmeaning
        obtain rfl := numberText_unique h hliteral
        cases heq
        exact ⟨n, rfl, hdenotes⟩
    | null =>
        obtain ⟨b, tail, heq, hb⟩ := exists_cons_of_numberText h
        cases heq
        simp [isDigit] at hb
    | array | object => exact hmeaning.choose_spec.2.elim
    | _ => cases hmeaning.choose_spec.2
  · rintro ⟨n, rfl, hdenotes⟩
    exact ⟨.int n.toInt, .integer h hdenotes, Nat.zero_le levels, n, rfl, rfl⟩

end Literals

section Places

/-- In the output of a probe the length of an array type stands between the two texts; in what is
reported the array type is at the given way. -/
inductive LengthStandsIn (way : List Step) : Bytes → Bytes → Prop
  | mk {head leading trailing outerFront outerBack front back : Bytes} {gap : Gap} :
      SentinelHead head → Blank leading → Blank trailing →
      StandsIn .package way outerFront outerBack .type →
      gap.LiesIn front back (.variant .array) →
      gap.key? (Shape.variant .array).keys = some "len" →
      LengthStandsIn way (head ++ (leading ++ (outerFront ++ front)))
        (back ++ (outerBack ++ trailing))

/-- An array type is built from its length and the type of its elements. -/
theorem build_array_iff {draft : Draft} {len : Option Int64} {type : GoType}
    {elem : GoType} (helem : draft.get .elem = .ok elem) :
    (Shape.variant .array).record.build (draft.set .len len) = .ok type ↔
      type = .array len elem := by
  have hlen : (draft.set .len len).get .len = .ok len := by
    rw [Draft.get, draft.set_self]
    rfl
  have hne : Slot.len ≠ .elem := by decide
  have hkept : draft.set .len len .elem = draft .elem := draft.set_of_ne len hne
  rw [← Draft.get_congr hkept] at helem
  apply (build_two_iff (fun _ => Iff.rfl) fun _ => Iff.rfl).trans
  apply Iff.intro
  · rintro ⟨found, part, rfl, hfound, hpart⟩
    cases hfound.symm.trans hlen
    cases hpart.symm.trans helem
    rfl
  · rintro rfl
    exact ⟨len, elem, rfl, hlen, helem⟩

variable {inType : Bool} {levels : Nat} {gap : Gap} {front back text : Bytes}

/-- An array type is read around its length. -/
theorem exists_array_around (hgap : gap.LiesIn front back (.variant .array))
    (hkey : gap.key? (Shape.variant .array).keys = some "len") (htext : WellFormed text)
    {type : GoType} (h : ReadsAs inType levels (front ++ (text ++ back)) .type type) :
    ∃ (inner : Nat) (elem : GoType), ∀ other, WellFormed other → ∀ type,
      ReadsAs inType levels (front ++ (other ++ back)) .type type ↔
        ∃ len, TreeText inner other (.optional .int64) len ∧ type = .array len elem := by
  have hsame : ∀ other, WellFormed other → ∀ type,
      ReadsAs inType levels (front ++ (other ++ back)) .type type ↔
        TreeText levels (front ++ (other ++ back)) .type type := by
    cases inType with
    | true => exact fun _ _ _ => Iff.rfl
    | false =>
        have hmeans : TextMeans levels (front ++ (text ++ back)) (Shape.variant .array).target type :=
          h
        exact textMeans_iff_treeText hgap htext rfl hmeans
  have htree : TreeText levels (front ++ (text ++ back)) (Shape.variant .array).target type :=
    (hsame text htext type).1 h
  obtain ⟨inner, rfl, hrecord⟩ := (treeText_record_iff (hgap.recordForm htext)).1 htree
  have hslot : Slot.len ∈ (Shape.variant .array).record.slots := by decide
  obtain ⟨draft, ⟨record, hbuild⟩, hrecords⟩ :=
    exists_draft_of_gap (functional_treeText inner) hslot hkey hrecord
  obtain ⟨elem, helem⟩ := get_of_build (.variant .array) hbuild .elem (by decide)
  refine ⟨inner, elem, fun other hother type => (hsame other hother type).trans ?_⟩
  change TreeText (inner + 1) (front ++ (other ++ back)) (Shape.variant .array).target type ↔ _
  rw [treeText_record_iff (hgap.recordForm hother), exists_level_iff, hrecords]
  exact exists_congr fun len => and_congr_right fun _ => build_array_iff helem

variable {way : List Step} {before after other : Bytes} {package : Package}

/-- What a probe reports with a value in the place of a length is a package, or it has a fault. -/
theorem LengthStandsIn.decode_cases (h : LengthStandsIn way before after) (text : Bytes) :
    (∃ package, decode (before ++ (text ++ after)) = .ok package) ∨
      ∃ fault, decode (before ++ (text ++ after)) = .error (.fault fault) := by
  cases h with
  | mk hhead =>
      rw [List.append_assoc, decode_of_sentinelHead hhead]
      split
      · next package _ => exact .inl ⟨package, rfl⟩
      · next fault _ => exact .inr ⟨fault, rfl⟩

/-- What a probe reports has the length that is read in its place, whatever that is, and is the same
otherwise. -/
theorem LengthStandsIn.exists_decode (h : LengthStandsIn way before after)
    (hother : WellFormed other) (hdecode : decode (before ++ (other ++ after)) = .ok package) :
    ∃ (frames : List Frame) (elem : GoType) (levels : Nat) (put : Option Int64 → Package),
      frames.map Frame.step = way ∧
      (∀ len, (put len).toJson = plug frames (GoType.array len elem).toJson) ∧
      ∀ text, WellFormed text → ∀ package, decode (before ++ (text ++ after)) = .ok package ↔
        ∃ len, TreeText levels text (.optional .int64) len ∧ package = put len := by
  cases h with
  | @mk head leading trailing outerFront outerBack front back gap hhead hleading htrailing houter
      hgap hkey =>
      have hinside {text : Bytes} (htext : WellFormed text) :
          WellFormed (front ++ (text ++ back)) := by
        obtain ⟨whole, hwhole⟩ := (hgap.recordForm htext).exists_formOf
        exact hwhole.wellFormed_text
      have hread {text : Bytes} (htext : WellFormed text) (package : Package) :
          decode (head ++ (leading ++ (outerFront ++ front)) ++
              (text ++ (back ++ (outerBack ++ trailing)))) = .ok package ↔
            ReadsAs false maxLevels (outerFront ++ ((front ++ (text ++ back)) ++ outerBack))
              .package package := by
        have hiff := decode_padded_iff hhead (houter.wellFormed (hinside htext))
          ⟨leading, trailing, hleading, htrailing, rfl⟩ package
        simp only [List.append_assoc] at hiff ⊢
        exact hiff
      have hmeans := (hread hother package).1 hdecode
      obtain ⟨frames, inType, levels, hframes, haround⟩ :=
        houter.exists_readsAround (hinside hother) hmeans
      obtain ⟨type, htype⟩ := haround.exists_inside (hinside hother) hmeans
      obtain ⟨inner, elem, harray⟩ := exists_array_around hgap hkey hother htype
      rcases haround with ⟨put, hput, hwritten⟩
      refine ⟨frames, elem, inner, fun len => put (.array len elem), hframes,
        fun len => hwritten (.array len elem) (by simp [wireForm, GoType.toJson, typeJson]),
        fun text htext package' => ?_⟩
      rw [hread htext, hput _ (hinside htext)]
      apply Iff.intro
      · rintro ⟨type, htype, rfl⟩
        obtain ⟨len, hlen, rfl⟩ := (harray text htext type).1 htype
        exact ⟨len, hlen, rfl⟩
      · rintro ⟨len, hlen, rfl⟩
        exact ⟨.array len elem, (harray text htext _).2 ⟨len, hlen, rfl⟩, rfl⟩

end Places

section Reports

variable {package : Package} {frames : List Frame} {n : Int64} {elem : GoType}

/-- Only types have kinds. -/
theorem target_eq_type_of_kind {target : Target} {value : target.Value} {tree : Json}
    {rest : List (String × Json)} (htarget : target.Present)
    (h : wireForm target value = .object ((kindKey, tree) :: rest)) : target = .type := by
  have hentries : wireForm target value = .object ([] ++ (kindKey, tree) :: rest) := h
  rcases entry_cases htarget hentries with
    ⟨htype, -⟩ | ⟨shape, slot, -, -, hslot, hlabel⟩
  · exact htype
  · exact absurd hlabel (label_ne_kindKey hslot)

/-- The report of a package has every length where the array type stands, as a literal that denotes
it. -/
theorem exists_length_of_encode
    (h : package.toJson = plug frames (GoType.array (some n) elem).toJson) :
    ∃ (before text after : Bytes) (literal : NumberLiteral),
      encode package = before ++ (text ++ after) ∧
      LengthStandsIn (frames.map Frame.step) before after ∧ NumberText text literal ∧
      Denotes literal n.toInt := by
  have hplace : wireForm .package package = plug frames (GoType.array (some n) elem).toJson := h
  obtain ⟨htarget, part, -, hpart, -⟩ := opens_frames .package trivial h
  have htype := target_eq_type_of_kind htarget hpart
  have hcompact : ValueText (utf8 package.toJson.compact)
      (plug frames (GoType.array (some n) elem).toJson) := by
    rw [← h]
    exact valueText_compact .package trivial package
  obtain ⟨outerFront, inside, outerBack, heq, hstands, hinside⟩ :=
    exists_standsIn_of_plug .package trivial hplace htype hcompact
  have hentries : wireForm (Shape.variant .array).target (.array (some n) elem) =
      .object ([(kindKey, .string "array")] ++
        (Slot.len.label, .int n.toInt) :: [("elem", elem.toJson)]) := rfl
  obtain ⟨gap, front, text, back, rfl, hgap, hkey, htext⟩ :=
    exists_gap_of_entry hentries List.mem_cons_self (by decide) hinside
  cases htext with
  | @integer _ literal _ hliteral hdenotes =>
      have hlineFeed : Blank [10] := by simp [Blank]
      refine ⟨_, text, _, literal, ?_,
        .mk sentinelHead_report Blank.nil hlineFeed hstands hgap hkey, hliteral, hdenotes⟩
      rw [encode_eq_append, heq]
      simp

/-- With a number in the place of a length, the package has that number for length or there is a
fault. -/
theorem LengthStandsIn.decode_number {way : List Step} {before after text : Bytes}
    {literal : NumberLiteral} {levels : Nat} {put : Option Int64 → Package}
    (h : LengthStandsIn way before after) (htext : NumberText text literal)
    (hread : ∀ package, decode (before ++ (text ++ after)) = .ok package ↔
      ∃ len, TreeText levels text (.optional .int64) len ∧ package = put len) :
    (IsLength text literal → ∃ n : Int64, n.toInt = literal.integer ∧
      decode (before ++ (text ++ after)) = .ok (put (some n))) ∧
    (¬ IsLength text literal →
      ∃ fault, decode (before ++ (text ++ after)) = .error (.fault fault)) := by
  refine ⟨fun hlength => ?_, fun hnone => ?_⟩
  · obtain ⟨n, hdenotes⟩ := (isLength_iff htext).1 hlength
    refine ⟨n, hdenotes.value, (hread _).2 ⟨some n, ?_, rfl⟩⟩
    exact (treeText_length_iff htext).2 ⟨n, rfl, hdenotes⟩
  · rcases h.decode_cases text with ⟨package, hpackage⟩ | hfault
    · obtain ⟨len, hlen, -⟩ := (hread package).1 hpackage
      obtain ⟨n, -, hdenotes⟩ := (treeText_length_iff htext).1 hlen
      exact absurd ((isLength_iff htext).2 ⟨n, hdenotes⟩) hnone
    · exact hfault

/-- A report that can be read with some value in the place of a length is read with a number there
exactly when it is an integer of 64 bits with a sign, written without a fraction or an exponent and
not as minus zero.  The package then has that integer for length, in the same place, and is the
same otherwise; any other number is a fault.  A report that is written has every length as such a
number, in such a place, and its package is read again if it does not nest too deep. -/
theorem length_is_exact_or_refused :
    (∀ (way : List Step) (before after other : Bytes) (package : Package),
      LengthStandsIn way before after → WellFormed other →
      decode (before ++ (other ++ after)) = .ok package →
      ∃ (frames : List Frame) (len : Option Int64) (elem : GoType),
        frames.map Frame.step = way ∧
        package.toJson = plug frames (GoType.array len elem).toJson ∧
        ∀ (text : Bytes) (literal : NumberLiteral), NumberText text literal →
          (IsLength text literal → ∃ (package' : Package) (n : Int64),
            decode (before ++ (text ++ after)) = .ok package' ∧ n.toInt = literal.integer ∧
            package'.toJson = plug frames (GoType.array (some n) elem).toJson) ∧
          (¬ IsLength text literal →
            ∃ fault, decode (before ++ (text ++ after)) = .error (.fault fault))) ∧
    ∀ (package : Package) (frames : List Frame) (n : Int64) (elem : GoType),
      package.toJson = plug frames (GoType.array (some n) elem).toJson →
      ∃ (before text after : Bytes) (literal : NumberLiteral),
        encode package = before ++ (text ++ after) ∧
        LengthStandsIn (frames.map Frame.step) before after ∧
        NumberText text literal ∧ IsLength text literal ∧ literal.integer = n.toInt ∧
        (package.toJson.depth ≤ 127 → decode (encode package) = .ok package) := by
  refine ⟨fun way before after other package hplace hother hdecode => ?_,
    fun package frames n elem hjson => ?_⟩
  · obtain ⟨frames, elem, levels, put, hframes, hput, hread⟩ :=
      hplace.exists_decode hother hdecode
    obtain ⟨len, -, rfl⟩ := (hread other hother package).1 hdecode
    refine ⟨frames, len, elem, hframes, hput len, fun text literal htext => ?_⟩
    obtain ⟨hexact, hrefused⟩ := hplace.decode_number htext (hread text (.number htext))
    refine ⟨fun hlength => ?_, hrefused⟩
    obtain ⟨n, hn, hpackage⟩ := hexact hlength
    exact ⟨put (some n), n, hpackage, hn, hput (some n)⟩
  · obtain ⟨before, text, after, literal, hencode, hplace, htext, hdenotes⟩ :=
      exists_length_of_encode hjson
    exact ⟨before, text, after, literal, hencode, hplace, htext,
      (isLength_iff htext).2 ⟨n, hdenotes⟩, hdenotes.value.symm,
      fun hdepth => (decode_append_encode [] package).1.2 ⟨hdepth, by decide⟩⟩

/-- The least length and the number after the greatest, in the place of the length of an array of
three. -/
theorem lengths_around_array_of_three :
    ∃ before text after : Bytes,
      encode (packageTaking (.array (some 3) (.predeclared "int"))) = before ++ (text ++ after) ∧
      (∃ package, decode (before ++ (utf8 "-9223372036854775808" ++ after)) = .ok package) ∧
      ∃ fault, decode (before ++ (utf8 "9223372036854775808" ++ after)) =
        .error (.fault fault) := by
  obtain ⟨before, text, after, literal, hencode, hplace, htext, -, -, hdecode⟩ :=
    length_is_exact_or_refused.2 (packageTaking (.array (some 3) (.predeclared "int")))
      takenFrames 3 (.predeclared "int") rfl
  have hread := hdecode (by decide)
  rw [hencode] at hread
  obtain ⟨frames, len, elem, -, -, hnumbers⟩ :=
    length_is_exact_or_refused.1 _ before after text _ hplace (.number htext) hread
  have hdigits : IsNumeral [9, 2, 2, 3, 3, 7, 2, 0, 3, 6, 8, 5, 4, 7, 7, 5, 8, 0, 8] :=
    ⟨by decide, by decide⟩
  have hleast : NumberText (utf8 "-9223372036854775808") ⟨true, _, none, none⟩ :=
    hdigits.numberText (by decide) true
  have hlarge : NumberText (utf8 "9223372036854775808") ⟨false, _, none, none⟩ :=
    hdigits.numberText (by decide) false
  refine ⟨before, text, after, hencode, ?_, ?_⟩
  · obtain ⟨package, -, hpackage, -⟩ :=
      (hnumbers _ _ hleast).1 ⟨rfl, rfl, by decide, by decide, by decide⟩
    exact ⟨package, hpackage⟩
  · refine (hnumbers _ _ hlarge).2 fun hlength => ?_
    have hhigh := hlength.high
    revert hhigh
    decide

end Reports

end InterfaceProbe
