/-
# Cutting joined texts

Texts that were joined with a mark between neighbours, or with one behind each of
them, are cut at the mark into the pieces that they have one by one.  Of no texts at all the joined
text is empty, which is one piece.
-/

import InterfaceProbe.Text.Lines
import InterfaceProbe.Text.Pieces
import InterfaceProbe.Text.Separated

namespace InterfaceProbe

variable {mark : Char} {text piece : String}

theorem not_mem_of_mem_pieces (h : piece ∈ pieces mark text) : mark ∉ piece.toList := by
  obtain ⟨chars, hchars, rfl⟩ := List.mem_map.1 h
  rw [String.toList_ofList]
  exact not_mem_of_mem_cutChars hchars

theorem pieces_ne_nil (mark : Char) (text : String) : pieces mark text ≠ [] :=
  mt List.map_eq_nil_iff.1 (cutChars_ne_nil mark text.toList)

theorem pieces_of_not_mem (h : mark ∉ text.toList) : pieces mark text = [text] := by
  rw [pieces, cutChars_of_not_mem h, List.map_singleton, String.ofList_toList]

theorem flatMap_pieces_of_not_mem {texts : List String} (h : ∀ text ∈ texts, mark ∉ text.toList) :
    texts.flatMap (pieces mark) = texts := by
  induction texts with
  | nil => rfl
  | cons text rest ih =>
      obtain ⟨htext, hrest⟩ := List.forall_mem_cons.1 h
      rw [List.flatMap_cons, pieces_of_not_mem htext, ih hrest, List.singleton_append]

theorem pieces_append_mark (mark : Char) (front back : String) :
    pieces mark (front ++ String.singleton mark ++ back) =
      pieces mark front ++ pieces mark back := by
  rw [pieces, pieces, pieces, String.toList_append, String.toList_append,
    String.toList_singleton, List.append_assoc, List.singleton_append, cutChars_append_mark,
    List.map_append]

/-- Joining texts with marks only adds the cuts between them. -/
theorem pieces_separated {texts : List String} (h : texts ≠ []) :
    pieces mark (separated (String.singleton mark) texts) = texts.flatMap (pieces mark) := by
  induction texts with
  | nil => exact absurd rfl h
  | cons text rest ih =>
      cases rest with
      | nil => simp [separated]
      | cons next rest =>
          rw [separated, pieces_append_mark, ih (List.cons_ne_nil next rest)]
          rfl

/-- What is in none of the texts and not in the separator is not in the joined text. -/
theorem not_mem_separated {separator : String} {texts : List String}
    (hseparator : mark ∉ separator.toList) (h : ∀ text ∈ texts, mark ∉ text.toList) :
    mark ∉ (separated separator texts).toList := by
  induction texts with
  | nil => exact List.not_mem_nil
  | cons text rest ih =>
      obtain ⟨htext, hrest⟩ := List.forall_mem_cons.1 h
      cases rest with
      | nil => exact htext
      | cons next rest => simp [separated, htext, hseparator, ih hrest]

/-- Behind the last line feed there is an empty piece. -/
theorem pieces_asLines (lines : List String) :
    pieces '\n' (asLines lines) = lines.flatMap (pieces '\n') ++ [""] := by
  induction lines with
  | nil => rfl
  | cons line rest ih =>
      rw [asLines, List.flatMap_cons, List.append_assoc, ← ih]
      exact pieces_append_mark '\n' line (asLines rest)

end InterfaceProbe
