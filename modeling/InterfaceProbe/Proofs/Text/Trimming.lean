/-
# What trimming leaves

A trimmed text is what is left of a text when nothing but characters of one sort is
taken off at its ends, and none of the sort stands at an end of what is left.
There is one such text.  If only that sort occurs it is empty, and then the cut
between the two ends may lie anywhere.
-/

import InterfaceProbe.Text.Blank
import Mathlib.Data.List.TakeWhile

namespace InterfaceProbe

variable {condition : Char → Bool} {text inside front back : List Char}

/-- What is left of the text when all characters of the sort are taken off at both ends, and no
others. -/
structure Trimmed (condition : Char → Bool) (text inside : List Char) : Prop where
  split : ∃ front back, (∀ c ∈ front, condition c = true) ∧ (∀ c ∈ back, condition c = true) ∧
    text = front ++ (inside ++ back)
  head : ∀ c ∈ inside.head?, condition c = false
  last : ∀ c ∈ inside.getLast?, condition c = false

theorem condition_of_mem_takeWhile : ∀ c ∈ text.takeWhile condition, condition c = true :=
  fun _ hc => List.mem_takeWhile_imp hc

theorem condition_of_head?_dropWhile (text : List Char) :
    ∀ c ∈ (text.dropWhile condition).head?, condition c = false := by
  intro c hc
  have hfirst := List.head?_dropWhile_not condition text
  rw [Option.mem_def] at hc
  rwa [hc] at hfirst

/-- Trimming takes the back off what it leaves of the text without its front. -/
theorem exists_trimChars_append (condition : Char → Bool) (text : List Char) :
    ∃ back, (∀ c ∈ back, condition c = true) ∧
      text.dropWhile condition = trimChars condition text ++ back := by
  refine ⟨((text.dropWhile condition).reverse.takeWhile condition).reverse, fun c hc => ?_, ?_⟩
  · exact condition_of_mem_takeWhile c (List.mem_reverse.1 hc)
  · rw [trimChars, ← List.reverse_append, List.takeWhile_append_dropWhile, List.reverse_reverse]

theorem trimmed_trimChars (condition : Char → Bool) (text : List Char) :
    Trimmed condition text (trimChars condition text) := by
  obtain ⟨back, hback, hdrop⟩ := exists_trimChars_append condition text
  refine ⟨⟨text.takeWhile condition, back, condition_of_mem_takeWhile, hback, ?_⟩,
    fun c hc => ?_, fun c hc => ?_⟩
  · rw [← hdrop, List.takeWhile_append_dropWhile]
  · refine condition_of_head?_dropWhile text c ?_
    rw [hdrop, List.head?_append, hc]
    rfl
  · rw [trimChars, List.getLast?_reverse] at hc
    exact condition_of_head?_dropWhile _ c hc

theorem dropWhile_append_of_head (hfront : ∀ c ∈ front, condition c = true)
    (hhead : ∀ c ∈ inside.head?, condition c = false) :
    (front ++ inside).dropWhile condition = inside := by
  rw [List.dropWhile_append_of_pos hfront]
  cases inside with
  | nil => rfl
  | cons c rest => exact List.dropWhile_cons_of_neg (by simp [hhead c rfl])

/-- Trimming leaves the trimmed text. -/
theorem trimmed_iff : Trimmed condition text inside ↔ trimChars condition text = inside := by
  apply Iff.intro
  · intro h
    obtain ⟨front, back, hfront, hback, rfl⟩ := h.split
    have hfrontDropped : (front ++ (inside ++ back)).dropWhile condition =
        (inside ++ back).dropWhile condition := List.dropWhile_append_of_pos hfront
    rw [trimChars, hfrontDropped]
    cases inside with
    | nil =>
        rw [List.nil_append, List.dropWhile_eq_nil_iff.2 hback]
        rfl
    | cons c rest =>
        rw [List.cons_append, List.dropWhile_cons_of_neg (by simp [h.head c rfl]),
          ← List.cons_append, List.reverse_append, dropWhile_append_of_head, List.reverse_reverse]
        · exact fun c hc => hback c (List.mem_reverse.1 hc)
        · rw [List.head?_reverse]
          exact h.last
  · rintro rfl
    exact trimmed_trimChars condition text

/-- More of the sort at the ends changes nothing. -/
theorem Trimmed.around (h : Trimmed condition text inside)
    (hfront : ∀ c ∈ front, condition c = true) (hback : ∀ c ∈ back, condition c = true) :
    Trimmed condition (front ++ (text ++ back)) inside := by
  obtain ⟨left, right, hleft, hright, rfl⟩ := h.split
  refine ⟨⟨front ++ left, right ++ back, fun c hc => ?_, fun c hc => ?_, by simp⟩, h.head, h.last⟩
  · exact (List.mem_append.1 hc).elim (hfront c) (hleft c)
  · exact (List.mem_append.1 hc).elim (hright c) (hback c)

/-- Of a text of the sort alone nothing is left. -/
theorem trimmed_nil (h : ∀ c ∈ text, condition c = true) : Trimmed condition text [] :=
  ⟨⟨text, [], h, List.forall_mem_nil _, by simp⟩, by simp, by simp⟩

theorem trimmed_self (hhead : ∀ c ∈ inside.head?, condition c = false)
    (hlast : ∀ c ∈ inside.getLast?, condition c = false) : Trimmed condition inside inside :=
  ⟨⟨[], [], List.forall_mem_nil _, List.forall_mem_nil _, by simp⟩, hhead, hlast⟩

theorem trimmed_withoutBlanks (text : String) :
    Trimmed isBlank text.toList (withoutBlanks text).toList := by
  rw [withoutBlanks, String.toList_ofList]
  exact trimmed_trimChars _ _

theorem withoutBlanks_of_trimmed {text inside : String}
    (h : Trimmed isBlank text.toList inside.toList) : withoutBlanks text = inside := by
  rw [withoutBlanks, trimmed_iff.1 h, String.ofList_toList]

theorem trimmed_withoutLineFeeds (text : String) :
    Trimmed (· == '\n') text.toList (withoutLineFeeds text).toList := by
  rw [withoutLineFeeds, String.toList_ofList]
  exact trimmed_trimChars _ _

end InterfaceProbe
