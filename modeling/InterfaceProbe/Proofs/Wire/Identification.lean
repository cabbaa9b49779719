/-
# A report identifies its package

The reader stops at 127 open arrays and objects, so two reports that nest deeper
cannot be told apart by decoding them.  Their texts tell them apart all the
same: the meaning of a text is there for every number of levels, the compact
text of a package means the package once the levels suffice for it, and a text
means one package only.

A report is three lines, and names cannot change that, since no control
character is written as it is.
-/

import InterfaceProbe.Proofs.Wire.RoundTrip

namespace InterfaceProbe

open Grammar Reader

/-- The compact text of a wire form has no control character. -/
theorem printable_compact (target : Target) (htarget : target.Present) (value : target.Value) :
    Printable (utf8 (wireForm target value).compact) := by
  induction hdepth : (wireForm target value).depth using Nat.strongRecOn
    generalizing target value with
  | _ depth ih =>
      subst hdepth
      rcases wireForm_cases htarget value with ⟨text, heq⟩ | ⟨n, heq⟩ |
        ⟨item, values, hitem, -, heq⟩ | ⟨shape, entries, record, -, -, hentries, heq⟩
      · rw [heq]
        exact printable_quoted text
      · rw [heq]
        exact printable_int (valueText_int64 n)
      · rw [heq] at ih ⊢
        rw [compact_array]
        refine printable_bracketedTexts fun text htext => ?_
        obtain ⟨tree, htree, rfl⟩ := List.mem_map.1 htext
        obtain ⟨part, -, rfl⟩ := List.mem_map.1 htree
        exact ih _ (depth_lt_of_mem_items htree) item hitem part rfl
      · rw [heq] at ih ⊢
        rw [compact_object]
        refine printable_bracedTexts fun member hmember => ?_
        obtain ⟨⟨key, tree⟩, hentry, rfl⟩ := List.mem_map.1 hmember
        obtain ⟨part, rfl⟩ := exists_value_of_entry hentries hentry
        exact ih _ (depth_lt_of_mem_entries hentry) _ (present_entryTarget key) part rfl

/-- The compact text of a package means the package at every number of levels that suffices. -/
theorem textMeans_compact {package : Package} {levels : Nat}
    (h : package.toJson.depth ≤ levels) :
    TextMeans levels (utf8 package.toJson.compact) .package package :=
  readsAs_of_spells (spells_compact false .package trivial package h)

/-- Packages that are written alike are the same, however deep they nest. -/
theorem eq_of_compact_eq {package other : Package}
    (h : utf8 package.toJson.compact = utf8 other.toJson.compact) : package = other := by
  have hpackage := textMeans_compact (Nat.le_max_left package.toJson.depth other.toJson.depth)
  have hother := textMeans_compact (Nat.le_max_right package.toJson.depth other.toJson.depth)
  rw [h] at hpackage
  exact (stream_package_takes _).functional trivial hpackage hother

theorem encode_eq_iff_compact_eq {package other : Package} :
    encode package = encode other ↔
      utf8 package.toJson.compact = utf8 other.toJson.compact := by
  rw [encode_eq, encode_eq, List.cons_inj_right, List.append_cancel_left_eq, List.cons_inj_right,
    List.append_cancel_right_eq]

/-- A report behind its sentinel line is the compact text and a line feed. -/
theorem findPayload_encode (package : Package) :
    findPayload (encode package) = .ok (utf8 package.toJson.compact ++ [10]) := by
  rw [encode_eq_append]
  exact sentinelHead_report.findPayload _

/-- A report is an empty line, the sentinel line and one line more. -/
theorem splitOn_encode (package : Package) :
    (encode package).splitOn 10 = [[], utf8 sentinel, utf8 package.toJson.compact, []] := by
  have hcompact : 10 ∉ utf8 package.toJson.compact :=
    (printable_compact .package trivial package).lineFeed_not_mem
  have hnil : (10 : UInt8) ∉ ([] : Bytes) := List.not_mem_nil
  rw [encode_eq, ← List.nil_append (10 :: _), List.splitOn_append_cons_self_of_not_mem hnil,
    List.splitOn_append_cons_self_of_not_mem not_mem_utf8_sentinel,
    List.splitOn_append_cons_self_of_not_mem hcompact, List.splitOn_nil]

/-- Reports of different packages differ.  A report is three lines: an empty one, the sentinel and
the wire form, which has no control character and is what follows the sentinel line. -/
theorem encode_identifies (package other : Package) :
    (encode package = encode other ↔ package = other) ∧
      (encode package).splitOn 10 = [[], utf8 sentinel, utf8 package.toJson.compact, []] ∧
      ValueText (utf8 package.toJson.compact) package.toJson ∧
      (∀ b ∈ utf8 package.toJson.compact, 32 ≤ b.toNat) ∧
      findPayload (encode package) = .ok (utf8 package.toJson.compact ++ [10]) := by
  refine ⟨Iff.intro (fun h => ?_) (fun h => ?_), splitOn_encode package,
    valueText_compact .package trivial package, printable_compact .package trivial package,
    findPayload_encode package⟩
  · exact eq_of_compact_eq (encode_eq_iff_compact_eq.1 h)
  · rw [h]

end InterfaceProbe
