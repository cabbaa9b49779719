/-
# Skipping values against the grammar

`Reader.skipValue` passes over exactly the well-formed values, however deep.
The reader keeps what is open in a list, so the relation it is compared with
says what a list of open containers still demands of the text: `Pending` for
each of the places the reader can be at.
-/

import InterfaceProbe.Proofs.Json.WholeValue

namespace InterfaceProbe.Reader

open Grammar

section Scalars

theorem skippedLiteral_sound {text rest : Bytes} (h : skippedLiteral text = .ok rest) :
    ∃ inside, LoosePieces inside ∧ text = inside ++ 34 :: rest := by
  fun_induction skippedLiteral text with
  | case1 | case3 | case4 | case6 | case8 => cases h
  | case2 =>
      cases h
      exact ⟨[], .nil, rfl⟩
  | case5 tail unit middle hquad _ ih =>
      obtain ⟨inside, hinside, rfl⟩ := ih h
      obtain ⟨digits, hdigits, rfl⟩ := hexQuad_eq_ok_iff.1 hquad
      exact ⟨92 :: 117 :: (digits ++ inside), .unit hdigits hinside, by simp⟩
  | case7 letter tail hletter b hshort _ ih =>
      obtain ⟨inside, hinside, rfl⟩ := ih h
      exact ⟨92 :: letter :: inside, .short (shortEscape?_eq_some_iff.1 hshort) hinside, rfl⟩
  | case9 b tail hquote hescape hcontrol ih =>
      obtain ⟨inside, hinside, rfl⟩ := ih h
      rw [UInt8.lt_iff_toNat_lt, Nat.not_lt] at hcontrol
      exact ⟨b :: inside, .plain ⟨hcontrol, hquote, hescape⟩ hinside, rfl⟩

theorem skippedLiteral_plain {b : UInt8} (h : IsPlain b) (text : Bytes) :
    skippedLiteral (b :: text) = skippedLiteral text := by
  have hcontrol : ¬ b < 32 := by
    rw [UInt8.lt_iff_toNat_lt]
    exact Nat.not_lt.2 h.1
  rw [skippedLiteral.eq_def]
  simp [h.2.1, h.2.2, hcontrol]

theorem skippedLiteral_short {letter b : UInt8} (h : ShortEscape letter b) (text : Bytes) :
    skippedLiteral (92 :: letter :: text) = skippedLiteral text := by
  have hne : letter ≠ 117 := by
    rintro rfl
    cases h
  rw [skippedLiteral.eq_def]
  simp [hne, shortEscape?_eq_some_iff.2 h]

theorem skippedLiteral_unit {digits : Bytes} {n : Nat} (h : HexQuad digits n) (text : Bytes) :
    skippedLiteral (92 :: 117 :: (digits ++ text)) = skippedLiteral text := by
  have hquad : hexQuad (digits ++ text) = .ok (n, text) :=
    hexQuad_eq_ok_iff.2 ⟨digits, h, rfl⟩
  rw [skippedLiteral.eq_def]
  simp only [show (92 : UInt8) ≠ 34 by decide, if_false, if_true]
  split
  · next hfault => cases hfault.symm.trans hquad
  · next hfound =>
      cases hfound.symm.trans hquad
      rfl

theorem skippedLiteral_of_loosePieces {inside : Bytes} (h : LoosePieces inside) (rest : Bytes) :
    skippedLiteral (inside ++ 34 :: rest) = .ok rest := by
  induction h with
  | nil =>
      rw [List.nil_append, skippedLiteral.eq_def]
      rfl
  | plain hb _ ih => rw [List.cons_append, skippedLiteral_plain hb, ih]
  | short hletter _ ih =>
      rw [List.cons_append, List.cons_append, skippedLiteral_short hletter, ih]
  | unit hdigits _ ih =>
      rw [List.cons_append, List.cons_append, List.append_assoc, skippedLiteral_unit hdigits, ih]

theorem skippedLiteral_sound_quoted {tail rest : Bytes} (h : skippedLiteral tail = .ok rest) :
    ∃ taken, LooseString taken ∧ 34 :: tail = taken ++ rest := by
  obtain ⟨inside, hinside, rfl⟩ := skippedLiteral_sound h
  exact ⟨34 :: (inside ++ [34]), ⟨inside, hinside, rfl⟩, by simp⟩

theorem skippedLiteral_of_looseString {text : Bytes} (h : LooseString text) (rest : Bytes) :
    ∃ tail, text = 34 :: tail ∧ skippedLiteral (tail ++ rest) = .ok rest := by
  rcases h with ⟨inside, hinside, rfl⟩
  refine ⟨inside ++ [34], rfl, ?_⟩
  rw [List.append_assoc]
  exact skippedLiteral_of_loosePieces hinside rest

theorem skippedScalar_sound {text rest : Bytes} (h : skippedScalar text = .ok rest) :
    ∃ taken, WellFormed taken ∧ text = taken ++ rest := by
  unfold skippedScalar at h
  split at h
  · cases h
  · next b tail =>
      split at h
      · next hb =>
          rw [dropWord_eq_ok_iff] at h
          exact ⟨_, .null, by rw [hb, h]; rfl⟩
      split at h
      · next hb =>
          rw [dropWord_eq_ok_iff] at h
          exact ⟨_, .true, by rw [hb, h]; rfl⟩
      split at h
      · next hb =>
          rw [dropWord_eq_ok_iff] at h
          exact ⟨_, .false, by rw [hb, h]; rfl⟩
      split at h
      · next hb =>
          obtain ⟨taken, htaken, htext⟩ := skippedLiteral_sound_quoted h
          exact ⟨taken, .string htaken, by rw [hb, htext]⟩
      split at h
      · split at h
        · cases h
        · next literal middle hliteral =>
            cases h
            obtain ⟨taken, htaken, htext⟩ := unsignedLiteral_sound hliteral
            refine ⟨_, .number htaken, ?_⟩
            by_cases hb : b = 45
            · rw [if_pos hb] at htext
              simp [hb, htext]
            · rw [if_neg hb] at htext
              simp [hb, htext]
      · cases h

/-- A number is skipped with the digits behind its sign. -/
theorem skippedScalar_of_numberText {text rest : Bytes} {literal : NumberLiteral}
    (h : NumberText text literal) (hrest : Ends rest) :
    skippedScalar (text ++ rest) = .ok rest := by
  obtain ⟨b, tail, hb, rfl, hrun⟩ := unsignedLiteral_of_numberText h hrest
  have hletter : b ≠ 110 ∧ b ≠ 116 ∧ b ≠ 102 ∧ b ≠ 34 ∧ b ≠ 45 := by
    refine ⟨?_, ?_, ?_, ?_, ?_⟩ <;> rintro rfl <;> simp [isDigit] at hb
  cases hnegative : literal.negative with
  | false =>
      rw [hnegative] at hrun
      have hsign : (b == 45) = false := by simp [hletter.2.2.2.2]
      simp only [Bool.false_eq_true, if_false, List.nil_append, List.cons_append, skippedScalar,
        hletter, hb, or_true, if_true, hsign, hrun]
  | true =>
      rw [hnegative] at hrun
      simp [skippedScalar, hrun]

end Scalars

section Places

/-- A member of a container of either kind, by the grammar alone. -/
def LooseMember : Enclosing → Bytes → Prop
  | .array, text => WellFormed text
  | .object, text => ∃ entry, EntryText entry text ∧ LooseString entry.1 ∧ WellFormed entry.2

/-- What may follow the opening byte of a container. -/
def Inside (enclosing : Enclosing) (text : Bytes) : Prop :=
  ∃ members, Members enclosing.closing members text ∧
    ∀ member ∈ members, LooseMember enclosing member

/-- What may follow a member of a container. -/
def Beyond (enclosing : Enclosing) (text : Bytes) : Prop :=
  ∃ members, Further enclosing.closing members text ∧
    ∀ member ∈ members, LooseMember enclosing member

/-- What closes all of the open containers, innermost first. -/
inductive Closing : List Enclosing → Bytes → Prop
  | nil : Closing [] []
  | cons {innermost : Enclosing} {outer : List Enclosing} {text texts : Bytes} :
      Beyond innermost text → Closing outer texts → Closing (innermost :: outer) (text ++ texts)

/-- What is passed over from a place to the end of all that encloses it. -/
def Pending : Due → List Enclosing → Bytes → Prop
  | .value, enclosing, text => ∃ blank value closing, Blank blank ∧ WellFormed value ∧
      Closing enclosing closing ∧ text = blank ++ (value ++ closing)
  | .first, [], text => text = []
  | .first, innermost :: outer, text => ∃ inside closing, Inside innermost inside ∧
      Closing outer closing ∧ text = inside ++ closing
  | .next, enclosing, text => Closing enclosing text

theorem exists_forall₂ {α β : Type} {relation : α → β → Prop} {members : List β}
    (h : ∀ b ∈ members, ∃ a, relation a b) : ∃ as, List.Forall₂ relation as members := by
  induction members with
  | nil => exact ⟨[], .nil⟩
  | cons b members ih =>
      obtain ⟨a, ha⟩ := h b List.mem_cons_self
      obtain ⟨as, has⟩ := ih fun b hb => h b (List.mem_cons_of_mem _ hb)
      exact ⟨a :: as, .cons ha has⟩

theorem wellFormed_of_inside_array {text : Bytes} (h : Inside .array text) :
    WellFormed (91 :: text) := by
  rcases h with ⟨members, hmembers, hloose⟩
  exact .array ⟨text, hmembers, rfl⟩ hloose

theorem wellFormed_of_inside_object {text : Bytes} (h : Inside .object text) :
    WellFormed (123 :: text) := by
  rcases h with ⟨members, hmembers, hloose⟩
  obtain ⟨entries, hentries⟩ := exists_forall₂ hloose
  have hlast (entry : Bytes × Bytes) (hentry : entry ∈ entries) :
      LooseString entry.1 ∧ WellFormed entry.2 := by
    obtain ⟨member, -, -, hlast⟩ := exists_related_of_mem hentries hentry
    exact hlast
  exact .object ⟨members, text, hentries.imp fun _ _ h => h.1, hmembers, rfl⟩
    (fun entry hentry => (hlast entry hentry).1) fun entry hentry => (hlast entry hentry).2

/-- What stands before a value inside a container makes a member together with the value. -/
theorem lead_sound {enclosing : Enclosing} {text rest : Bytes}
    (h : enclosing.lead text = .ok rest) {after value tail : Bytes} (hafter : Blank after)
    (hvalue : WellFormed value) (hrest : rest = after ++ (value ++ tail)) :
    ∃ blank member, Blank blank ∧ LooseMember enclosing member ∧
      text = blank ++ (member ++ tail) := by
  cases enclosing with
  | array =>
      cases h
      exact ⟨after, value, hafter, hvalue, hrest⟩
  | object =>
      simp only [Enclosing.lead, skippedKey] at h
      split at h
      · cases h
      · next hskip =>
          obtain ⟨blank, hblank, rfl⟩ := exists_of_skipBlank_eq_cons hskip
          split at h
          · next hquote =>
              subst hquote
              split at h
              · cases h
              · next hliteral =>
                  obtain ⟨taken, htaken, htext⟩ := skippedLiteral_sound_quoted hliteral
                  split at h
                  · cases h
                  · next hskip' =>
                      obtain ⟨before, hbefore, rfl⟩ := exists_of_skipBlank_eq_cons hskip'
                      split at h
                      · next hcolon =>
                          cases h
                          refine ⟨blank, _, hblank, ⟨(taken, value), ⟨before, after, hbefore,
                            hafter, rfl⟩, htaken, hvalue⟩, ?_⟩
                          simp [htext, hcolon, hrest]
                      · cases h
          · cases h

end Places

theorem skippedFrom_sound {due : Due} {enclosing : List Enclosing} {text rest : Bytes}
    (h : skippedFrom due enclosing text = .ok rest) :
    ∃ taken, Pending due enclosing taken ∧ text = taken ++ rest := by
  fun_induction skippedFrom due enclosing text with
  | case1 | case4 | case7 | case9 | case12 | case13 | case16 => cases h
  | case2 enclosing text tail hskip ih =>
      obtain ⟨blank, hblank, rfl⟩ := exists_of_skipBlank_eq_cons hskip
      obtain ⟨_, ⟨inside, closing, hinside, hclosing, rfl⟩, rfl⟩ := ih h
      exact ⟨_, ⟨blank, _, closing, hblank, wellFormed_of_inside_array hinside, hclosing, rfl⟩,
        by simp⟩
  | case3 enclosing text tail hskip _ ih =>
      obtain ⟨blank, hblank, rfl⟩ := exists_of_skipBlank_eq_cons hskip
      obtain ⟨_, ⟨inside, closing, hinside, hclosing, rfl⟩, rfl⟩ := ih h
      exact ⟨_, ⟨blank, _, closing, hblank, wellFormed_of_inside_object hinside, hclosing, rfl⟩,
        by simp⟩
  | case5 enclosing text b tail hskip _ _ middle hscalar ih =>
      obtain ⟨blank, hblank, rfl⟩ := exists_of_skipBlank_eq_cons hskip
      obtain ⟨closing, hclosing, rfl⟩ := ih h
      obtain ⟨value, hvalue, htext⟩ := skippedScalar_sound hscalar
      exact ⟨_, ⟨blank, value, closing, hblank, hvalue, hclosing, rfl⟩, by simp [htext]⟩
  | case6 =>
      cases h
      exact ⟨[], rfl, rfl⟩
  | case8 text innermost outer tail hskip ih =>
      obtain ⟨blank, hblank, rfl⟩ := exists_of_skipBlank_eq_cons hskip
      obtain ⟨closing, hclosing, rfl⟩ := ih h
      exact ⟨_, ⟨_, closing, ⟨[], .none hblank, by simp⟩, hclosing, rfl⟩, by simp⟩
  | case10 text innermost outer b tail hskip _ middle hlead ih =>
      obtain ⟨blank, hblank, rfl⟩ := exists_of_skipBlank_eq_cons hskip
      obtain ⟨_, ⟨after, value, _, hafter, hvalue, hclosing, rfl⟩, hmiddle⟩ := ih h
      obtain _ | ⟨⟨members, hfurther, hloose⟩, hclosing⟩ := hclosing
      rw [List.append_assoc, List.append_assoc] at hmiddle
      obtain ⟨blank', member, hblank', hmember, htext⟩ := lead_sound hlead hafter hvalue hmiddle
      refine ⟨_, ⟨_, _, ⟨member :: members, .some (hblank.append hblank') hfurther, ?_⟩, hclosing,
        rfl⟩, by simp [htext]⟩
      exact List.forall_mem_cons.2 ⟨hmember, hloose⟩
  | case11 =>
      cases h
      exact ⟨[], .nil, rfl⟩
  | case14 text innermost outer tail middle hlead hskip ih =>
      obtain ⟨before, hbefore, rfl⟩ := exists_of_skipBlank_eq_cons hskip
      obtain ⟨_, ⟨after, value, _, hafter, hvalue, hclosing, rfl⟩, hmiddle⟩ := ih h
      obtain _ | ⟨⟨members, hfurther, hloose⟩, hclosing⟩ := hclosing
      rw [List.append_assoc, List.append_assoc] at hmiddle
      obtain ⟨blank, member, hblank, hmember, htext⟩ := lead_sound hlead hafter hvalue hmiddle
      refine ⟨_, .cons ⟨member :: members, .comma hbefore hblank hfurther, ?_⟩ hclosing,
        by simp [htext]⟩
      exact List.forall_mem_cons.2 ⟨hmember, hloose⟩
  | case15 text innermost outer tail hskip _ ih =>
      obtain ⟨blank, hblank, rfl⟩ := exists_of_skipBlank_eq_cons hskip
      obtain ⟨closing, hclosing, rfl⟩ := ih h
      exact ⟨_, .cons ⟨[], .close hblank, by simp⟩ hclosing, by simp⟩

section Equations

variable {enclosing : List Enclosing} {text tail rest : Bytes}

theorem skippedFrom_value_of_bracket (h : skipBlank text = 91 :: tail) :
    skippedFrom .value enclosing text = skippedFrom .first (.array :: enclosing) tail := by
  conv => lhs; rw [skippedFrom]
  split
  · next hskip => cases hskip.symm.trans h
  · next hskip =>
      cases hskip.symm.trans h
      rfl

theorem skippedFrom_value_of_brace (h : skipBlank text = 123 :: tail) :
    skippedFrom .value enclosing text = skippedFrom .first (.object :: enclosing) tail := by
  conv => lhs; rw [skippedFrom]
  split
  · next hskip => cases hskip.symm.trans h
  · next hskip =>
      cases hskip.symm.trans h
      rfl

theorem skippedFrom_value_of_scalar {b : UInt8} (h : skipBlank text = b :: tail) (harray : b ≠ 91)
    (hobject : b ≠ 123) (hscalar : skippedScalar (b :: tail) = .ok rest) :
    skippedFrom .value enclosing text = skippedFrom .next enclosing rest := by
  conv => lhs; rw [skippedFrom]
  split
  · next hskip => cases hskip.symm.trans h
  · next hskip =>
      cases hskip.symm.trans h
      rw [if_neg harray, if_neg hobject]
      split
      · next hfault => cases hfault.symm.trans hscalar
      · next hrest =>
          cases hrest.symm.trans hscalar
          rfl

variable {innermost : Enclosing} {outer : List Enclosing}

theorem skippedFrom_first_of_closing (h : skipBlank text = innermost.closing :: tail) :
    skippedFrom .first (innermost :: outer) text = skippedFrom .next outer tail := by
  conv => lhs; rw [skippedFrom]
  split
  · next hskip => cases hskip.symm.trans h
  · next hskip =>
      cases hskip.symm.trans h
      rw [if_pos rfl]

theorem skippedFrom_first_of_member {b : UInt8} (h : skipBlank text = b :: tail)
    (hb : b ≠ innermost.closing) (hlead : innermost.lead (b :: tail) = .ok rest) :
    skippedFrom .first (innermost :: outer) text =
      skippedFrom .value (innermost :: outer) rest := by
  conv => lhs; rw [skippedFrom]
  split
  · next hskip => cases hskip.symm.trans h
  · next hskip =>
      cases hskip.symm.trans h
      rw [if_neg hb]
      split
      · next hfault => cases hfault.symm.trans hlead
      · next hrest =>
          cases hrest.symm.trans hlead
          rfl

theorem skippedFrom_next_of_closing (h : skipBlank text = innermost.closing :: tail) :
    skippedFrom .next (innermost :: outer) text = skippedFrom .next outer tail := by
  have hcomma : innermost.closing ≠ 44 := by cases innermost <;> decide
  conv => lhs; rw [skippedFrom]
  split
  · next hskip => cases hskip.symm.trans h
  · next hskip =>
      cases hskip.symm.trans h
      rw [if_neg hcomma, if_pos rfl]

theorem skippedFrom_next_of_comma (h : skipBlank text = 44 :: tail)
    (hlead : innermost.lead tail = .ok rest) :
    skippedFrom .next (innermost :: outer) text = skippedFrom .value (innermost :: outer) rest := by
  conv => lhs; rw [skippedFrom]
  split
  · next hskip => cases hskip.symm.trans h
  · next hskip =>
      cases hskip.symm.trans h
      rw [if_pos rfl]
      split
      · next hfault => cases hfault.symm.trans hlead
      · next hrest =>
          cases hrest.symm.trans hlead
          rfl

@[simp] theorem skippedFrom_next_nil : skippedFrom .next [] text = .ok text := by
  rw [skippedFrom]

end Equations

section Completeness

/-- The text of a value is passed over wherever it stands. -/
def SkipsValue (value : Bytes) : Prop :=
  ∀ {enclosing : List Enclosing} {blank rest : Bytes}, Blank blank → Ends rest →
    skippedFrom .value enclosing (blank ++ (value ++ rest)) = skippedFrom .next enclosing rest

/-- The text of a member is passed over wherever it stands: what leads to its value, and then the
value. -/
def SkipsMember (enclosing : Enclosing) (member : Bytes) : Prop :=
  ∀ {outer : List Enclosing} {blank rest : Bytes}, Blank blank → Ends rest →
    ∃ middle, enclosing.lead (blank ++ (member ++ rest)) = .ok middle ∧
      skippedFrom .value (enclosing :: outer) middle = skippedFrom .next (enclosing :: outer) rest

theorem SkipsValue.member {value : Bytes} (h : SkipsValue value) : SkipsMember .array value :=
  fun hblank hrest => ⟨_, rfl, h hblank hrest⟩

theorem SkipsValue.entry {entry : Bytes × Bytes} {text : Bytes} (htext : EntryText entry text)
    (hkey : LooseString entry.1) (hvalue : SkipsValue entry.2) : SkipsMember .object text := by
  rcases htext with ⟨before, after, hbefore, hafter, rfl⟩
  intro outer blank rest hblank hrest
  obtain ⟨tail, hquote, hliteral⟩ := skippedLiteral_of_looseString hkey
    (before ++ 58 :: (after ++ (entry.2 ++ rest)))
  refine ⟨after ++ (entry.2 ++ rest), ?_, hvalue hafter hrest⟩
  rw [hquote, show blank ++ (34 :: tail ++ (before ++ 58 :: (after ++ entry.2)) ++ rest) =
    blank ++ 34 :: (tail ++ (before ++ 58 :: (after ++ (entry.2 ++ rest)))) by simp]
  simp only [Enclosing.lead, skippedKey,
    skipBlank_blank_cons hblank (by decide : isBlank 34 = false), if_true, hliteral,
    skipBlank_blank_cons hbefore (by decide : isBlank 58 = false)]

variable {enclosing : Enclosing} {outer : List Enclosing}

theorem closing_eq (enclosing : Enclosing) :
    isBlank enclosing.closing = false ∧ (enclosing.closing = 93 ∨ enclosing.closing = 125) := by
  cases enclosing <;> exact ⟨by decide, by decide⟩

theorem skippedFrom_next_of_further {members : List Bytes} {text : Bytes}
    (htext : Further enclosing.closing members text)
    (hmembers : ∀ member ∈ members, SkipsMember enclosing member) (rest : Bytes) :
    skippedFrom .next (enclosing :: outer) (text ++ rest) = skippedFrom .next outer rest := by
  induction htext with
  | close hblank =>
      rw [List.append_assoc]
      exact skippedFrom_next_of_closing (skipBlank_blank_cons hblank (closing_eq enclosing).1 rest)
  | @comma before after member text members hbefore hafter hfurther ih =>
      obtain ⟨hmember, hmembers⟩ := List.forall_mem_cons.1 hmembers
      obtain ⟨middle, hlead, hvalue⟩ :=
        hmember hafter (ends_of_further (closing_eq enclosing).2 hfurther rest)
      rw [← ih hmembers, ← hvalue, List.append_assoc, List.cons_append, List.append_assoc,
        List.append_assoc]
      exact skippedFrom_next_of_comma (skipBlank_blank_cons hbefore (by decide) _) hlead

theorem skippedFrom_first_of_members {members : List Bytes} {text : Bytes}
    (htext : Members enclosing.closing members text)
    (hmembers : ∀ member ∈ members, SkipsMember enclosing member)
    (hstart : ∀ member ∈ members, ∃ b tail, member = b :: tail ∧ isBlank b = false ∧
      b ≠ enclosing.closing) (rest : Bytes) :
    skippedFrom .first (enclosing :: outer) (text ++ rest) = skippedFrom .next outer rest := by
  cases htext with
  | none hblank =>
      rw [List.append_assoc]
      exact skippedFrom_first_of_closing (skipBlank_blank_cons hblank (closing_eq enclosing).1 rest)
  | @some blank member text members hblank hfurther =>
      obtain ⟨hmember, hothers⟩ := List.forall_mem_cons.1 hmembers
      obtain ⟨b, tail, rfl, hb, hclosing⟩ := hstart _ List.mem_cons_self
      obtain ⟨middle, hlead, hvalue⟩ :=
        hmember Blank.nil (ends_of_further (closing_eq enclosing).2 hfurther rest)
      rw [← skippedFrom_next_of_further hfurther hothers rest, ← hvalue, List.append_assoc,
        List.append_assoc]
      exact skippedFrom_first_of_member (skipBlank_blank_cons hblank hb _) hclosing hlead

theorem skipsValue_of_scalar {value : Bytes}
    (hstart : ∃ b tail, value = b :: tail ∧ isBlank b = false ∧ b ≠ 91 ∧ b ≠ 123)
    (hscalar : ∀ rest, Ends rest → skippedScalar (value ++ rest) = .ok rest) :
    SkipsValue value := by
  rcases hstart with ⟨b, tail, rfl, hb, harray, hobject⟩
  intro enclosing blank rest hblank hrest
  exact skippedFrom_value_of_scalar (skipBlank_blank_cons hblank hb _) harray hobject
    (hscalar rest hrest)

/-- Every well-formed value is passed over. -/
theorem skipsValue_of_wellFormed {value : Bytes} (h : WellFormed value) : SkipsValue value := by
  induction h with
  | null =>
      refine skipsValue_of_scalar ⟨110, _, rfl, by decide, by decide, by decide⟩ fun rest _ => ?_
      simp [skippedScalar, dropWord]
  | true =>
      refine skipsValue_of_scalar ⟨116, _, rfl, by decide, by decide, by decide⟩ fun rest _ => ?_
      simp [skippedScalar, dropWord]
  | false =>
      refine skipsValue_of_scalar ⟨102, _, rfl, by decide, by decide, by decide⟩ fun rest _ => ?_
      simp [skippedScalar, dropWord]
  | number hnumber =>
      apply skipsValue_of_scalar
      · obtain ⟨b, tail, rfl, hb⟩ := exists_cons_of_numberText hnumber
        refine ⟨b, tail, rfl, ?_, ?_, ?_⟩
        · exact (IsValueStart.ne (by rcases hb with hb | hb <;> simp [IsValueStart, hb])).1
        all_goals
          rintro rfl
          simp [isDigit] at hb
      · exact fun rest hrest => skippedScalar_of_numberText hnumber hrest
  | string hstring =>
      apply skipsValue_of_scalar
      · rcases hstring with ⟨inside, _, rfl⟩
        exact ⟨34, _, rfl, by decide, by decide, by decide⟩
      · intro rest _
        obtain ⟨tail, rfl, hliteral⟩ := skippedLiteral_of_looseString hstring rest
        simp [skippedScalar, hliteral]
  | @array text items htext hitems ih =>
      rcases htext with ⟨inside, hmembers, rfl⟩
      intro enclosing blank rest hblank hrest
      rw [List.cons_append, skippedFrom_value_of_bracket
        (skipBlank_blank_cons hblank (by decide) _)]
      have hinside : Members Enclosing.array.closing items inside := hmembers
      refine skippedFrom_first_of_members hinside
        (fun item hitem => SkipsValue.member (ih item hitem)) (fun item hitem => ?_) rest
      obtain ⟨b, tail, rfl, hb⟩ := (hitems item hitem).start
      exact ⟨b, tail, rfl, hb.ne.1, hb.ne.2.2.2.1⟩
  | @object text entries htext hkeys hvalues ih =>
      rcases htext with ⟨texts, inside, htexts, hmembers, rfl⟩
      have hentry (text : Bytes) (htext : text ∈ texts) :
          ∃ entry ∈ entries, EntryText entry text := exists_related_of_mem htexts.flip htext
      intro enclosing blank rest hblank hrest
      rw [List.cons_append, skippedFrom_value_of_brace (skipBlank_blank_cons hblank (by decide) _)]
      have hinside : Members Enclosing.object.closing texts inside := hmembers
      refine skippedFrom_first_of_members hinside (fun text htext => ?_) (fun text htext => ?_) rest
      · obtain ⟨entry, hmem, hentry⟩ := hentry text htext
        exact SkipsValue.entry hentry (hkeys entry hmem) (ih entry hmem)
      · obtain ⟨entry, hmem, before, after, _, _, rfl⟩ := hentry text htext
        obtain ⟨inside, _, hkey⟩ := hkeys entry hmem
        exact ⟨34, _, by rw [hkey]; rfl, by decide, by decide⟩

end Completeness

/-- Skipping takes exactly the well-formed values. -/
theorem skipValue_takes : Takes Ends skipValue fun text _ => WellFormed text where
  sound {text value rest} h := by
    simp only [skipValue] at h
    split at h
    · cases h
    · next hskipped =>
        cases h
        obtain ⟨_, ⟨blank, value, closing, hblank, hvalue, hclosing, rfl⟩, rfl⟩ :=
          skippedFrom_sound hskipped
        cases hclosing
        exact ⟨blank, value, hblank, hvalue, by simp⟩
  complete {blank taken value rest} hblank htaken hrest := by
    simp only [skipValue, skipsValue_of_wellFormed htaken hblank hrest, skippedFrom_next_nil]

end InterfaceProbe.Reader
