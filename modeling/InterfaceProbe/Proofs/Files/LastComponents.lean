/-
# The last component of a path

A path ends in a name if nothing but slashes, and dots between slashes, comes behind it.
What is in front of the name is nothing or ends with a slash, and is not looked at.
A path whose last step goes up, and one that only has steps that stay, end in no
name.
-/

import InterfaceProbe.Files.PathName
import Mathlib.Data.List.Basic

namespace InterfaceProbe.PathName

/-- A component that names an entry of a directory. -/
structure IsName (name : String) : Prop where
  ne_empty : name ≠ ""
  noSlash : '/' ∉ name.toList
  ne_dot : name ≠ "."
  ne_up : name ≠ ".."

/-- What may follow the last component of a path: slashes, and single dots behind slashes. -/
inductive TrailsOff : String → Prop
  | none : TrailsOff ""
  | slash {tail : String} : TrailsOff tail → TrailsOff ("/" ++ tail)
  | dot {tail : String} : TrailsOff tail → TrailsOff ("/." ++ tail)

/-- The last component of the path is the name. -/
def EndsIn (path : PathName) (name : String) : Prop :=
  IsName name ∧ ∃ front tail, path = front ++ (name ++ tail) ∧
    (front = "" ∨ front.endsInSlash = true) ∧ TrailsOff tail

variable {path : PathName} {name tail : String}

section Tails

theorem TrailsOff.append_slash (h : TrailsOff tail) : TrailsOff (tail ++ "/") := by
  induction h with
  | none => exact .slash .none
  | slash _ ih => exact String.append_assoc ▸ .slash ih
  | dot _ ih => exact String.append_assoc ▸ .dot ih

theorem TrailsOff.append_dot (h : TrailsOff tail) : TrailsOff (tail ++ "/.") := by
  induction h with
  | none => exact .dot .none
  | slash _ ih => exact String.append_assoc ▸ .slash ih
  | dot _ ih => exact String.append_assoc ▸ .dot ih

theorem EndsIn.append_slash (h : EndsIn path name) : EndsIn (path ++ "/") name := by
  obtain ⟨hname, front, tail, rfl, hfront, htail⟩ := h
  exact ⟨hname, front, tail ++ "/", by simp only [String.append_assoc], hfront,
    htail.append_slash⟩

theorem EndsIn.append_dot (h : EndsIn path name) : EndsIn (path ++ "/.") name := by
  obtain ⟨hname, front, tail, rfl, hfront, htail⟩ := h
  exact ⟨hname, front, tail ++ "/.", by simp only [String.append_assoc], hfront, htail.append_dot⟩

/-- All that is cut off behind the first slash of a tail stays put. -/
theorem TrailsOff.cut (h : TrailsOff tail) : tail = "" ∨ ∃ rest, tail.toList = '/' :: rest ∧
    ∀ piece ∈ cutChars '/' rest, staysPut (String.ofList piece) = true := by
  induction h with
  | none => exact .inl rfl
  | @slash tail _ ih =>
      refine .inr ⟨tail.toList, by simp, ?_⟩
      rcases ih with rfl | ⟨rest, hrest, hpieces⟩
      · decide
      · rw [hrest, cutChars, if_pos rfl]
        exact List.forall_mem_cons.2 ⟨rfl, hpieces⟩
  | @dot tail _ ih =>
      refine .inr ⟨'.' :: tail.toList, by simp, ?_⟩
      rcases ih with rfl | ⟨rest, hrest, hpieces⟩
      · decide
      · rw [hrest]
        exact (cutChars_append_mark '/' ['.'] rest).symm ▸ List.forall_mem_cons.2 ⟨rfl, hpieces⟩

/-- Pieces that stay put make a tail. -/
theorem trailsOff_of_staysPut {pieces : List (List Char)}
    (h : ∀ piece ∈ pieces, staysPut (String.ofList piece) = true) :
    TrailsOff (String.ofList (pieces.flatMap fun piece => '/' :: piece)) := by
  induction pieces with
  | nil => exact .none
  | cons piece pieces ih =>
      obtain ⟨hpiece, hpieces⟩ := List.forall_mem_cons.1 h
      rw [List.flatMap_cons, String.ofList_append]
      simp only [staysPut, Bool.or_eq_true, beq_iff_eq] at hpiece
      rcases hpiece with hpiece | hpiece
      · obtain rfl : piece = [] := String.ofList_injective hpiece
        exact .slash (ih hpieces)
      · obtain rfl : piece = ['.'] := String.ofList_injective hpiece
        exact .dot (ih hpieces)

end Tails

section Pieces

/-- The pieces of a path that ends in a name. -/
theorem EndsIn.exists_cut (h : EndsIn path name) :
    ∃ before after, cutChars '/' path.toList = before ++ name.toList :: after ∧
      ∀ piece ∈ after, staysPut (String.ofList piece) = true := by
  obtain ⟨hname, front, tail, rfl, hfront, htail⟩ := h
  have hback : ∃ after, cutChars '/' (name ++ tail).toList = name.toList :: after ∧
      ∀ piece ∈ after, staysPut (String.ofList piece) = true := by
    rcases htail.cut with rfl | ⟨rest, hrest, hpieces⟩
    · exact ⟨[], by rw [String.append_empty, cutChars_of_not_mem hname.noSlash],
        List.forall_mem_nil _⟩
    · refine ⟨_, ?_, hpieces⟩
      rw [String.toList_append, hrest, cutChars_append_mark, cutChars_of_not_mem hname.noSlash]
      rfl
  obtain ⟨after, hcut, hafter⟩ := hback
  rcases hfront with rfl | hslash
  · exact ⟨[], after, by rw [String.empty_append, hcut]; rfl, hafter⟩
  · obtain ⟨parent, hparent⟩ := List.getLast?_eq_some_iff.1 (beq_iff_eq.1 hslash)
    refine ⟨cutChars '/' parent, after, ?_, hafter⟩
    rw [String.toList_append, hparent, List.append_assoc, ← hcut]
    exact cutChars_append_mark '/' parent (name ++ tail).toList

/-- Pieces put together with slashes, around one of them. -/
theorem intercalate_around (before after : List (List Char)) (piece : List Char) :
    ∃ front, (front = [] ∨ front.getLast? = some '/') ∧
      ['/'].intercalate (before ++ piece :: after) =
        front ++ (piece ++ after.flatMap fun piece => '/' :: piece) := by
  induction before with
  | nil =>
      refine ⟨[], .inl rfl, ?_⟩
      rw [List.nil_append, List.nil_append]
      induction after generalizing piece with
      | nil => simp
      | cons next after ih => rw [List.intercalate_cons_cons, ih]; simp
  | cons first before ih =>
      obtain ⟨front, hfront, heq⟩ := ih
      refine ⟨first ++ '/' :: front, .inr ?_, ?_⟩
      · rw [List.getLast?_append_of_ne_nil _ (List.cons_ne_nil _ _), List.getLast?_cons]
        rcases hfront with rfl | hlast
        · rfl
        · rw [hlast]
          rfl
      · obtain ⟨second, rest, hrest⟩ :=
          List.exists_cons_of_ne_nil (List.append_ne_nil_of_right_ne_nil before
            (List.cons_ne_nil piece after))
        rw [List.cons_append, hrest, List.intercalate_cons_cons, ← hrest, heq]
        simp

/-- A path is found to have the last component that it ends in. -/
theorem fileName?_eq_some_iff : fileName? path = some name ↔ EndsIn path name := by
  have hfound : fileName? path = some name ↔
      path.components.getLast? = some name ∧ name ≠ ".." := by
    rw [fileName?]
    split
    · next hnone => simp [hnone]
    · next hlast =>
        rw [hlast, Option.some.injEq]
        exact ⟨fun h => (by cases h), fun h => absurd h.1.symm h.2⟩
    · next last hup hlast =>
        rw [hlast, Option.some.injEq]
        exact ⟨fun h => ⟨h, h ▸ hup⟩, And.left⟩
  rw [hfound, components, pieces]
  apply Iff.intro
  · intro h
    rcases h with ⟨hlast, hup⟩
    obtain ⟨others, hfilter⟩ := List.getLast?_eq_some_iff.1 hlast
    obtain ⟨front, back, hsplit, -, hback⟩ := List.filter_eq_append_iff.1 hfilter
    obtain ⟨middle, after, rfl, -, hname, hafter⟩ := List.filter_eq_cons_iff.1 hback
    rw [← List.append_assoc] at hsplit
    obtain ⟨before, rest, hcut, -, hrest⟩ := List.map_eq_append_iff.1 hsplit
    obtain ⟨piece, after, rfl, rfl, rfl⟩ := List.map_eq_cons_iff.1 hrest
    have hstay : ∀ piece ∈ after, staysPut (String.ofList piece) = true := by
      intro piece hpiece
      have := List.filter_eq_nil_iff.1 hafter _ (List.mem_map_of_mem hpiece)
      simpa using this
    have hfree : '/' ∉ piece := not_mem_of_mem_cutChars (by rw [hcut]; simp)
    obtain ⟨front, hfront, heq⟩ := intercalate_around before after piece
    rw [← hcut, intercalate_cutChars] at heq
    simp only [staysPut, Bool.not_eq_true', Bool.or_eq_false_iff, beq_eq_false_iff_ne] at hname
    refine ⟨⟨hname.1, by rwa [String.toList_ofList], hname.2, hup⟩, String.ofList front, _, ?_, ?_,
      trailsOff_of_staysPut hstay⟩
    · rw [← String.ofList_append, ← String.ofList_append, ← heq, String.ofList_toList]
    · rcases hfront with rfl | hlast
      · exact .inl rfl
      · exact .inr (by simp [endsInSlash, hlast])
  · intro h
    obtain ⟨before, after, hcut, hafter⟩ := h.exists_cut
    obtain ⟨hname, -⟩ := h
    refine ⟨?_, hname.ne_up⟩
    have hstays : staysPut name = false := by
      simp [staysPut, hname.ne_empty, hname.ne_dot]
    have hnone : (after.map String.ofList).filter (fun piece => !staysPut piece) = [] := by
      rw [List.filter_eq_nil_iff, List.forall_mem_map]
      intro piece hpiece
      simp [hafter piece hpiece]
    rw [hcut, List.map_append, List.map_cons, String.ofList_toList, List.filter_append,
      List.filter_cons_of_pos (by simp [hstays]), hnone, List.getLast?_concat]

end Pieces

end InterfaceProbe.PathName
