/-
# What readers take

`Reader.Takes` ties a reader to a relation between texts and values: the reader
passes over white space, takes a text of the relation and leaves the rest, and
it does so for every such text before every rest that may follow.  Both halves
are needed.  The first alone holds of a reader that always fails, and the
second alone says nothing about what else is accepted.

The module supplies the relation's introduction rule for readers that look at
the first byte before they decide, and the facts about white space and
sequencing that the rule and its uses rest on.
-/

import InterfaceProbe.Proofs.Json.Grammar

namespace InterfaceProbe

open Grammar

namespace Grammar

theorem Blank.nil : Blank [] := by
  intro b hb
  cases hb

theorem Blank.append {first second : Bytes} (hfirst : Blank first) (hsecond : Blank second) :
    Blank (first ++ second) := by
  intro b hb
  rcases List.mem_append.1 hb with hb | hb
  · exact hfirst b hb
  · exact hsecond b hb

theorem Blank.of_append_right {first second : Bytes} (h : Blank (first ++ second)) :
    Blank second :=
  fun b hb => h b (List.mem_append_right first hb)

theorem isBlank_iff {b : UInt8} :
    Reader.isBlank b = true ↔ b = 32 ∨ b = 9 ∨ b = 10 ∨ b = 13 := by
  simp [Reader.isBlank, or_assoc]

theorem Blank.isBlank {text : Bytes} (h : Blank text) {b : UInt8} (hb : b ∈ text) :
    Reader.isBlank b = true :=
  isBlank_iff.2 (h b hb)

end Grammar

namespace Reader

theorem skipBlank_append {blank : Bytes} (h : Blank blank) (text : Bytes) :
    skipBlank (blank ++ text) = skipBlank text :=
  List.dropWhile_append_of_pos fun _ hb => h.isBlank hb

@[simp] theorem skipBlank_nil : skipBlank [] = [] := rfl

theorem skipBlank_cons {b : UInt8} (h : isBlank b = false) (text : Bytes) :
    skipBlank (b :: text) = b :: text := by
  simp [skipBlank, h]

/-- White space, and then a byte that is none. -/
theorem skipBlank_blank_cons {blank : Bytes} (h : Blank blank) {b : UInt8}
    (hb : isBlank b = false) (text : Bytes) : skipBlank (blank ++ b :: text) = b :: text := by
  rw [skipBlank_append h, skipBlank_cons hb]

/-- Every text is its leading white space and what follows it. -/
theorem exists_blank_append_skipBlank (text : Bytes) :
    ∃ blank, Blank blank ∧ text = blank ++ skipBlank text := by
  refine ⟨text.takeWhile isBlank, ?_, (List.takeWhile_append_dropWhile).symm⟩
  intro b hb
  exact isBlank_iff.1 (List.all_eq_true.1 List.all_takeWhile b hb)

theorem skipBlank_eq_nil_iff {text : Bytes} : skipBlank text = [] ↔ Blank text := by
  apply Iff.intro
  · intro h
    obtain ⟨blank, hblank, htext⟩ := exists_blank_append_skipBlank text
    rw [htext, h, List.append_nil]
    exact hblank
  · intro h
    have := skipBlank_append h []
    rwa [List.append_nil] at this

/-- What white space is followed by, when it is followed by anything, is none itself. -/
theorem isBlank_eq_false_of_skipBlank {text rest : Bytes} {b : UInt8}
    (h : skipBlank text = b :: rest) : isBlank b = false := by
  have hhead := List.head?_dropWhile_not isBlank text
  rw [show text.dropWhile isBlank = b :: rest from h] at hhead
  simpa using hhead

theorem exists_of_skipBlank_eq_cons {text rest : Bytes} {b : UInt8}
    (h : skipBlank text = b :: rest) : ∃ blank, Blank blank ∧ text = blank ++ b :: rest := by
  obtain ⟨blank, hblank, htext⟩ := exists_blank_append_skipBlank text
  exact ⟨blank, hblank, by rw [htext, h]⟩

section Sequencing

variable {α β : Type}

/-- A sequence succeeds when both readers do, the second on what the first left. -/
theorem run_bind_eq_ok {first : Reader α} {next : α → Reader β} {text rest : Bytes} {value : β} :
    (first >>= next).run text = .ok (value, rest) ↔
      ∃ found middle, first.run text = .ok (found, middle) ∧
        (next found).run middle = .ok (value, rest) := by
  rw [run_bind]
  apply Iff.intro
  · intro h
    split at h
    · cases h
    · next found middle hfirst => exact ⟨found, middle, hfirst, h⟩
  · intro h
    rcases h with ⟨found, middle, hfirst, hnext⟩
    rw [hfirst]
    exact hnext

/-- Reads on after a first reader whose outcome is known. -/
theorem run_bind_of_ok {first : Reader α} {next : α → Reader β} {text middle : Bytes} {found : α}
    (h : first.run text = .ok (found, middle)) :
    (first >>= next).run text = (next found).run middle := by
  rw [run_bind, h]

theorem run_ofExcept_eq_ok {outcome : Except Fault α} {text rest : Bytes} {value : α} :
    (ofExcept outcome).run text = .ok (value, rest) ↔ outcome = .ok value ∧ rest = text := by
  cases outcome with
  | error fault => simp [ofExcept]
  | ok found =>
      simp only [ofExcept, Reader.pure, Except.ok.injEq, Prod.mk.injEq]
      apply Iff.intro
      · intro h
        rcases h with ⟨rfl, rfl⟩
        exact ⟨rfl, rfl⟩
      · intro h
        rcases h with ⟨rfl, rfl⟩
        exact ⟨rfl, rfl⟩

@[simp] theorem run_skip_cons (b : UInt8) (text : Bytes) :
    skip.run (b :: text) = .ok ((), text) := rfl

@[simp] theorem run_malformed (cause : Malformed) (text : Bytes) :
    (malformed cause : Reader α).run text = .error (.malformed cause) := rfl

theorem run_peek_append {blank : Bytes} (h : Blank blank) {b : UInt8} (hb : isBlank b = false)
    (atEnd : Malformed) (text : Bytes) :
    (peek atEnd).run (blank ++ b :: text) = .ok (b, b :: text) := by
  simp only [peek, skipBlank_blank_cons h hb]

theorem run_peek_eq_ok {atEnd : Malformed} {text rest : Bytes} {b : UInt8}
    (h : (peek atEnd).run text = .ok (b, rest)) :
    isBlank b = false ∧ ∃ blank tail, Blank blank ∧ rest = b :: tail ∧ text = blank ++ rest := by
  simp only [peek] at h
  split at h
  · cases h
  · next found tail hskip =>
      cases h
      have hb := isBlank_eq_false_of_skipBlank hskip
      obtain ⟨blank, hblank, htext⟩ := exists_of_skipBlank_eq_cons hskip
      exact ⟨hb, blank, tail, hblank, rfl, htext⟩

end Sequencing

/-- The text is at its end or goes on with a byte that continues no number. -/
def Ends (rest : Bytes) : Prop :=
  ∀ b ∈ rest.head?, isDigit b = false ∧ b ≠ 46 ∧ b ≠ 101 ∧ b ≠ 69

/-- What follows a value inside a container ends a number: white space, punctuation. -/
theorem ends_blank_cons {blank : Bytes} (h : Blank blank) {b : UInt8}
    (hb : b = 44 ∨ b = 58 ∨ b = 93 ∨ b = 125) (text : Bytes) : Ends (blank ++ b :: text) := by
  intro c hc
  cases blank with
  | nil =>
      cases hc
      rcases hb with rfl | rfl | rfl | rfl <;> decide
  | cons d blank =>
      cases hc
      rcases h c List.mem_cons_self with rfl | rfl | rfl | rfl <;> decide

/-- The reader passes over white space and takes exactly the texts of the relation, before any
rest that may follow them. -/
structure Takes {α : Type} (follow : Bytes → Prop) (reader : Reader α)
    (relation : Bytes → α → Prop) : Prop where
  sound : ∀ {text value rest}, reader.run text = .ok (value, rest) →
    ∃ blank taken, Blank blank ∧ relation taken value ∧ text = blank ++ (taken ++ rest)
  complete : ∀ {blank taken value rest}, Blank blank → relation taken value → follow rest →
    reader.run (blank ++ (taken ++ rest)) = .ok (value, rest)

section Takes

variable {α : Type} {follow : Bytes → Prop} {relation : Bytes → α → Prop}

/-- A reader that looks at the first byte and then decides takes what its continuation takes. -/
theorem Takes.of_peek {atEnd : Malformed} {next : UInt8 → Reader α}
    (hsound : ∀ {b tail value rest}, isBlank b = false →
      (next b).run (b :: tail) = .ok (value, rest) →
      ∃ taken, relation taken value ∧ b :: tail = taken ++ rest)
    (hcomplete : ∀ {taken value rest}, relation taken value → follow rest →
      ∃ b tail, isBlank b = false ∧ taken = b :: tail ∧
        (next b).run (b :: (tail ++ rest)) = .ok (value, rest)) :
    Takes follow (peek atEnd >>= next) relation where
  sound {text value rest} h := by
    obtain ⟨b, middle, hpeek, hnext⟩ := run_bind_eq_ok.1 h
    obtain ⟨hb, blank, tail, hblank, rfl, rfl⟩ := run_peek_eq_ok hpeek
    obtain ⟨taken, htaken, hsplit⟩ := hsound hb hnext
    exact ⟨blank, taken, hblank, htaken, by rw [hsplit]⟩
  complete {blank taken value rest} hblank htaken hfollow := by
    obtain ⟨b, tail, hb, rfl, hnext⟩ := hcomplete htaken hfollow
    rw [List.cons_append, run_bind_of_ok (run_peek_append hblank hb atEnd _)]
    exact hnext

/-- A reader that takes its texts before every rest takes them before some rests. -/
theorem Takes.weaken {reader : Reader α} (h : Takes (fun _ => True) reader relation) :
    Takes follow reader relation where
  sound hrun := h.sound hrun
  complete hblank htaken _ := h.complete hblank htaken trivial

/-- Relations that hold of the same texts and values are taken by the same readers. -/
theorem Takes.congr {reader : Reader α} {other : Bytes → α → Prop}
    (h : Takes follow reader relation)
    (hsame : ∀ text value, relation text value ↔ other text value) :
    Takes follow reader other where
  sound hrun := by
    obtain ⟨blank, taken, hblank, htaken, htext⟩ := h.sound hrun
    exact ⟨blank, taken, hblank, (hsame _ _).1 htaken, htext⟩
  complete hblank htaken hfollow := h.complete hblank ((hsame _ _).2 htaken) hfollow

end Takes

theorem dropWord_eq_ok_iff {letters text rest : Bytes} :
    dropWord letters text = .ok rest ↔ text = letters ++ rest := by
  induction letters generalizing text with
  | nil => simp only [dropWord, Except.ok.injEq, List.nil_append]
  | cons letter letters ih =>
      cases text with
      | nil => simp [dropWord]
      | cons b text =>
          simp only [dropWord, List.cons_append, List.cons.injEq]
          split
          · next hb => simp [hb, ih]
          · next hb => simp [hb]

/-- A word at the front of the text is taken exactly when it stands there. -/
theorem run_word_eq_ok {letters text rest : Bytes} :
    (word letters).run text = .ok ((), rest) ↔ text = letters ++ rest := by
  rw [← dropWord_eq_ok_iff]
  simp only [word]
  cases dropWord letters text <;> simp

end Reader

end InterfaceProbe
