/-
# Cutting text at marks

`pieces mark text` is the text cut at every occurrence of a character, empty
pieces included.  There is always at least one piece, and putting the pieces back
together with marks between them gives the text again.
-/

namespace InterfaceProbe

/-- Characters cut at every mark. -/
def cutChars (mark : Char) : List Char → List (List Char)
  | [] => [[]]
  | c :: rest =>
    if c = mark then [] :: cutChars mark rest
    else match cutChars mark rest with
      | [] => [[c]]
      | piece :: pieces => (c :: piece) :: pieces

/-- A text cut at every mark. -/
def pieces (mark : Char) (text : String) : List String :=
  (cutChars mark text.toList).map String.ofList

theorem cutChars_ne_nil (mark : Char) (text : List Char) : cutChars mark text ≠ [] := by
  cases text with
  | nil => simp [cutChars]
  | cons c rest =>
    simp only [cutChars]
    split
    · simp
    · split <;> simp

theorem not_mem_of_mem_cutChars {mark : Char} {text piece : List Char}
    (h : piece ∈ cutChars mark text) : mark ∉ piece := by
  induction text generalizing piece with
  | nil => simp_all [cutChars]
  | cons c rest ih =>
    simp only [cutChars] at h
    split at h
    · rcases List.mem_cons.1 h with rfl | h
      · simp
      · exact ih h
    · next hc =>
      split at h
      · next hnil => exact absurd hnil (cutChars_ne_nil mark rest)
      · next first more hcut =>
        rcases List.mem_cons.1 h with rfl | h
        · have : mark ∉ first := ih (by simp [hcut])
          simp only [List.mem_cons, not_or]
          exact ⟨fun e => hc e.symm, this⟩
        · exact ih (by simp [hcut, h])

theorem cutChars_of_not_mem {mark : Char} {text : List Char} (h : mark ∉ text) :
    cutChars mark text = [text] := by
  induction text with
  | nil => rfl
  | cons c rest ih =>
    simp only [List.mem_cons, not_or] at h
    simp [cutChars, ih h.2, Ne.symm h.1]

theorem cutChars_append_mark (mark : Char) (front back : List Char) :
    cutChars mark (front ++ mark :: back) = cutChars mark front ++ cutChars mark back := by
  induction front with
  | nil => simp [cutChars]
  | cons c rest ih =>
    simp only [List.cons_append, cutChars, ih]
    split
    · simp
    · cases hcut : cutChars mark rest with
      | nil => exact absurd hcut (cutChars_ne_nil mark rest)
      | cons first more => simp

theorem intercalate_cutChars (mark : Char) (text : List Char) :
    [mark].intercalate (cutChars mark text) = text := by
  induction text with
  | nil => simp [cutChars]
  | cons c rest ih =>
    simp only [cutChars]
    cases hcut : cutChars mark rest with
    | nil => exact absurd hcut (cutChars_ne_nil mark rest)
    | cons first more =>
      rw [hcut] at ih
      split
      · next h => simp [List.intercalate_cons_cons, h, ih]
      · cases more with
        | nil => simpa using ih
        | cons second more =>
          rw [List.intercalate_cons_cons] at ih ⊢
          simp [← ih]

end InterfaceProbe
