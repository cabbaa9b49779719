/-
# Texts that denote a value are well formed

A text that denotes a tree is well formed, and so is each of its parts.  The
module also says how a well-formed text starts, which is what the loops over
members decide by: no value starts with white space or with punctuation.
-/

import InterfaceProbe.Proofs.Json.NumberLiteral

namespace InterfaceProbe.Grammar

section Strings

theorem LoosePieces.append {first second : Bytes} (hfirst : LoosePieces first)
    (hsecond : LoosePieces second) : LoosePieces (first ++ second) := by
  induction hfirst with
  | nil => exact hsecond
  | plain hb _ ih => exact .plain hb ih
  | short hletter _ ih => exact .short hletter ih
  | unit hdigits _ ih =>
      rw [List.cons_append, List.cons_append, List.append_assoc]
      exact .unit hdigits ih

theorem Piece.loose {text bytes : Bytes} (h : Piece text bytes) : LoosePieces text := by
  cases h with
  | plain hb => exact .plain hb .nil
  | short hletter => exact .short hletter .nil
  | unit hdigits _ =>
      have h := LoosePieces.unit hdigits .nil
      rwa [List.append_nil] at h
  | pair hleading htrailing _ _ =>
      apply LoosePieces.unit hleading
      have h := LoosePieces.unit htrailing .nil
      rwa [List.append_nil] at h

theorem Pieces.loose {text bytes : Bytes} (h : Pieces text bytes) : LoosePieces text := by
  induction h with
  | nil => exact .nil
  | cons hpiece _ ih => exact hpiece.loose.append ih

theorem StringText.loose {text : Bytes} {value : String} (h : StringText text value) :
    LooseString text := by
  rcases h with ⟨inside, hinside, rfl⟩
  exact ⟨inside, hinside.loose, rfl⟩

end Strings

theorem exists_mem_zip {α β : Type} {first : List α} {second : List β}
    (hlength : first.length = second.length) {a : α} (ha : a ∈ first) :
    ∃ b, (a, b) ∈ first.zip second := by
  rw [← List.map_fst_zip (Nat.le_of_eq hlength)] at ha
  obtain ⟨⟨_, b⟩, hb, rfl⟩ := List.mem_map.1 ha
  exact ⟨b, hb⟩

/-- A member of one of two related lists is related to a member of the other. -/
theorem exists_related_of_mem {α β : Type} {relation : α → β → Prop} {first : List α}
    {second : List β} (h : List.Forall₂ relation first second) {a : α} (ha : a ∈ first) :
    ∃ b ∈ second, relation a b := by
  obtain ⟨b, hb⟩ := exists_mem_zip h.length_eq ha
  exact ⟨b, (List.of_mem_zip hb).2, List.forall₂_zip h hb⟩

/-- A text that denotes a tree is well formed. -/
theorem ValueText.wellFormed {text : Bytes} {value : Json} (h : ValueText text value) :
    WellFormed text := by
  induction h with
  | null => exact .null
  | true => exact .true
  | false => exact .false
  | integer hnumber _ => exact .number hnumber
  | real hnumber _ => exact .number hnumber
  | string hstring => exact .string hstring.loose
  | array htext hlength _ ih =>
      refine .array htext fun item hitem => ?_
      obtain ⟨value, hvalue⟩ := exists_mem_zip hlength hitem
      exact ih _ hvalue
  | object htext hlength hkeys _ ih =>
      refine .object htext (fun entry hentry => ?_) fun entry hentry => ?_
      · obtain ⟨value, hvalue⟩ := exists_mem_zip hlength hentry
        exact (hkeys _ hvalue).loose
      · obtain ⟨value, hvalue⟩ := exists_mem_zip hlength hentry
        exact ih _ hvalue

/-- A byte that a value may start with. -/
def IsValueStart (b : UInt8) : Prop :=
  b = 110 ∨ b = 116 ∨ b = 102 ∨ b = 45 ∨ Reader.isDigit b = true ∨ b = 34 ∨ b = 91 ∨ b = 123

theorem WellFormed.start {text : Bytes} (h : WellFormed text) :
    ∃ b tail, text = b :: tail ∧ IsValueStart b := by
  unfold IsValueStart
  cases h with
  | null => exact ⟨110, _, rfl, by simp⟩
  | true => exact ⟨116, _, rfl, by simp⟩
  | false => exact ⟨102, _, rfl, by simp⟩
  | number hnumber =>
      obtain ⟨b, tail, rfl, hb⟩ := Reader.exists_cons_of_numberText hnumber
      exact ⟨b, tail, rfl, by rcases hb with hb | hb <;> simp [hb]⟩
  | string hstring =>
      rcases hstring with ⟨inside, _, rfl⟩
      exact ⟨34, _, rfl, by simp⟩
  | array htext _ =>
      rcases htext with ⟨inside, _, rfl⟩
      exact ⟨91, _, rfl, by simp⟩
  | object htext _ _ =>
      rcases htext with ⟨_, inside, _, _, rfl⟩
      exact ⟨123, _, rfl, by simp⟩

/-- No value starts with white space, a comma, a colon, a closing bracket or a closing brace. -/
theorem IsValueStart.ne {b : UInt8} (h : IsValueStart b) :
    Reader.isBlank b = false ∧ b ≠ 44 ∧ b ≠ 58 ∧ b ≠ 93 ∧ b ≠ 125 := by
  have hdigit : Reader.isDigit b = true →
      Reader.isBlank b = false ∧ b ≠ 44 ∧ b ≠ 58 ∧ b ≠ 93 ∧ b ≠ 125 := by
    intro hb
    have hrange := Reader.isDigit_iff.1 hb
    refine ⟨?_, ?_, ?_, ?_, ?_⟩
    · rw [← Bool.not_eq_true, isBlank_iff]
      rintro (rfl | rfl | rfl | rfl) <;> simp at hrange
    all_goals
      rintro rfl
      simp at hrange
  rcases h with rfl | rfl | rfl | rfl | hb | rfl | rfl | rfl
  case inr.inr.inr.inr.inl => exact hdigit hb
  all_goals decide

end InterfaceProbe.Grammar
