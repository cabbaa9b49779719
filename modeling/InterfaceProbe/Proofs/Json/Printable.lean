/-
# Tokens without control characters

Strings and numbers hold no byte below the blank: the grammar asks for escapes
there.  White space between tokens is the only place where a JSON text may have
such bytes, so a text that is written without white space is one line.
-/

import InterfaceProbe.Proofs.Json.Compact

namespace InterfaceProbe

open Grammar

/-- No control character stands in the text. -/
def Printable (text : Bytes) : Prop := ∀ b ∈ text, 32 ≤ b.toNat

instance (text : Bytes) : Decidable (Printable text) :=
  List.decidableBAll (fun b : UInt8 => 32 ≤ b.toNat) text

namespace Printable

variable {first second text : Bytes}

theorem nil : Printable [] := by
  intro b hb
  cases hb

theorem append (hfirst : Printable first) (hsecond : Printable second) :
    Printable (first ++ second) :=
  List.forall_mem_append.2 ⟨hfirst, hsecond⟩

theorem cons {b : UInt8} (hb : 32 ≤ b.toNat) (htext : Printable text) : Printable (b :: text) :=
  List.forall_mem_cons.2 ⟨hb, htext⟩

/-- A text without control characters is on one line. -/
theorem lineFeed_not_mem (h : Printable text) : 10 ∉ text := by
  intro hmem
  exact absurd (h 10 hmem) (by decide)

end Printable

namespace Grammar

section Strings

theorem HexDigit.printable {b : UInt8} {n : Nat} (h : HexDigit b n) : 32 ≤ b.toNat := by
  rcases h with ⟨-, h⟩ | ⟨-, -, h | h⟩ <;> omega

theorem HexQuad.printable {digits : Bytes} {n : Nat} (h : HexQuad digits n) :
    Printable digits := by
  rcases h with ⟨ha, hb, hc, hd⟩
  exact .cons ha.printable (.cons hb.printable (.cons hc.printable (.cons hd.printable .nil)))

theorem ShortEscape.printable {letter b : UInt8} (h : ShortEscape letter b) :
    32 ≤ letter.toNat := by
  cases h <;> decide

theorem LoosePieces.printable {inside : Bytes} (h : LoosePieces inside) : Printable inside := by
  induction h with
  | nil => exact .nil
  | plain hb _ ih => exact .cons hb.1 ih
  | short hletter _ ih => exact .cons (by decide) (.cons hletter.printable ih)
  | unit hdigits _ ih =>
      exact .cons (by decide) (.cons (by decide) (hdigits.printable.append ih))

/-- A string literal has no control character, whatever it denotes. -/
theorem LooseString.printable {text : Bytes} (h : LooseString text) : Printable text := by
  rcases h with ⟨inside, hinside, rfl⟩
  exact .cons (by decide) (hinside.printable.append (.cons (by decide) .nil))

theorem printable_quoted (text : String) : Printable (utf8 (quoted text)) :=
  (stringText_quoted text).loose.printable

end Strings

section Numbers

theorem IsNumeral.printable {digits : List Nat} (h : IsNumeral digits) :
    Printable (digitBytes digits) := by
  intro b hb
  have hdigit := Reader.isDigit_iff.1 (Reader.isDigit_of_mem_digitBytes h.2 hb)
  omega

theorem FractionText.printable {text : Bytes} {fraction : Option (List Nat)}
    (h : FractionText text fraction) : Printable text := by
  cases h with
  | none => exact .nil
  | some hdigits => exact .cons (by decide) hdigits.printable

theorem ExponentText.printable {text : Bytes} {exponent : Option (Bool × List Nat)}
    (h : ExponentText text exponent) : Printable text := by
  cases h with
  | none => exact .nil
  | @some letter sign _ _ hletter hsign hdigits =>
      have hsign : Printable sign := by
        cases hsign <;> simp [Printable]
      refine .cons ?_ (hsign.append hdigits.printable)
      rcases hletter with rfl | rfl <;> decide

/-- A number literal has no control character. -/
theorem NumberText.printable {text : Bytes} {literal : NumberLiteral}
    (h : NumberText text literal) : Printable text := by
  rcases h with ⟨hwhole, -, hfraction, hexponent⟩
  refine .append ?_ (hwhole.printable.append (hfraction.printable.append hexponent.printable))
  split <;> simp [Printable]

theorem printable_int {n : Int} {text : Bytes} (h : ValueText text (.int n)) : Printable text := by
  cases h with
  | integer hnumber _ => exact hnumber.printable

end Numbers

section Containers

theorem printable_separated {texts : List String} (h : ∀ text ∈ texts, Printable (utf8 text)) :
    Printable (utf8 (separated "," texts)) := by
  induction texts with
  | nil => exact .nil
  | cons first texts ih =>
      obtain ⟨hfirst, htexts⟩ := List.forall_mem_cons.1 h
      cases texts with
      | nil => exact hfirst
      | cons next texts =>
          have hcomma : Printable (utf8 ",") := by decide
          rw [separated, utf8_append, utf8_append]
          exact (hfirst.append hcomma).append (ih htexts)

theorem printable_bracketedTexts {items : List String}
    (h : ∀ item ∈ items, Printable (utf8 item)) : Printable (utf8 (bracketedTexts items)) := by
  have hopen : Printable (utf8 "[") := by decide
  have hclose : Printable (utf8 "]") := by decide
  rw [bracketedTexts, utf8_append, utf8_append]
  exact (hopen.append (printable_separated h)).append hclose

theorem printable_bracedTexts {members : List (String × String)}
    (h : ∀ member ∈ members, Printable (utf8 member.2)) :
    Printable (utf8 (bracedTexts members)) := by
  have hopen : Printable (utf8 "\x7b") := by decide
  have hcolon : Printable (utf8 ":") := by decide
  have hclose : Printable (utf8 "\x7d") := by decide
  rw [bracedTexts, utf8_append, utf8_append]
  refine (hopen.append (printable_separated fun text htext => ?_)).append hclose
  obtain ⟨member, hmember, rfl⟩ := List.mem_map.1 htext
  rw [utf8_append, utf8_append]
  exact ((printable_quoted member.1).append hcolon).append (h member hmember)

end Containers

end Grammar

end InterfaceProbe
