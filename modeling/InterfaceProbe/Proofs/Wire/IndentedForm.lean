/-
# The report that is shown

A package is shown as indented JSON and reported as one line of JSON.  Both texts are
written from the wire form, and white space outside of string literals is all they
differ in: blanks inside of a name stay, however deep the name stands.

What is shown can be reported.  Behind a sentinel line it is decoded as the report is,
and when it nests too deep it is rejected as the report is.  A fault does not tell where
in the text it was met, the one thing the two texts can disagree about.
-/

import InterfaceProbe.Proofs.Json.Indented
import InterfaceProbe.Proofs.Wire.Identification
import InterfaceProbe.Report.Package

namespace InterfaceProbe

open Grammar Reader

section EveryLayout

variable {package : Package} {text payload : Bytes}

/-- Behind its sentinel line any text of the wire form is decoded alike. -/
theorem decode_of_valueText {head : Bytes} (hhead : SentinelHead head)
    (htext : ValueText text package.toJson) (hpayload : Padded text payload) :
    decode (head ++ payload) =
      if package.toJson.depth ≤ 127 then .ok package
      else .error (.fault (.malformed .tooDeep)) := by
  rw [decode_of_sentinelHead hhead, readPackage_of_valueText htext hpayload, maxLevels]
  by_cases h : package.toJson.depth ≤ 127 <;> simp only [h, if_true, if_false]

end EveryLayout

section Shown

variable (package : Package)

theorem utf8_jsonReport :
    utf8 package.jsonReport = utf8 (package.toJson.indented 0) ++ [10] := by
  rw [Package.jsonReport, utf8_append]
  rfl

/-- The text of a container ends with what closes it. -/
theorem exists_front_of_bracketed (opening closing : String) (level : Nat)
    (members : List String) :
    ∃ front, Json.bracketed opening closing level members = front ++ closing := by
  cases members with
  | nil => exact ⟨opening, rfl⟩
  | cons _ _ => exact ⟨_, rfl⟩

/-- The text of a package ends with a brace and not with a line feed. -/
theorem getLast?_indented_ne_lineFeed :
    (utf8 (package.toJson.indented 0)).getLast? ≠ some 10 := by
  have hobject : ∃ entries, package.toJson = .object entries := ⟨_, rfl⟩
  rcases hobject with ⟨entries, hentries⟩
  obtain ⟨front, hfront⟩ := exists_front_of_bracketed "\x7b" "\x7d" 0
    (entries.map fun entry => quoted entry.1 ++ ": " ++ entry.2.indented 1)
  have hbrace : utf8 "\x7d" = [125] := rfl
  rw [hentries, indented_object, hfront, utf8_append, hbrace, List.getLast?_concat]
  decide

/-- Without its layout what is shown is the line that is reported. -/
theorem withoutLayout_jsonReport :
    withoutLayout .outside (utf8 package.jsonReport) = utf8 package.toJson.compact := by
  have hplain : Plain package.toJson := plain_wireForm .package trivial package
  have hreport : ReducesTo (utf8 package.jsonReport) (utf8 package.toJson.compact ++ []) := by
    rw [utf8_jsonReport]
    exact (hplain.reducesTo_indented 0).append (reducesTo_blank (by simp [Blank]))
  rw [hreport.withoutLayout, List.append_nil]

/-- What is shown is decoded behind a sentinel line as the report is. -/
theorem decode_jsonReport :
    decode (utf8 (sentinel ++ "\n") ++ utf8 package.jsonReport) =
      if package.toJson.depth ≤ 127 then .ok package
      else .error (.fault (.malformed .tooDeep)) := by
  have hhead : SentinelHead (utf8 (sentinel ++ "\n")) := by
    rw [utf8_append]
    exact .sentinel
  have hplain : Plain package.toJson := plain_wireForm .package trivial package
  rw [utf8_jsonReport]
  exact decode_of_valueText hhead (hplain.valueText_indented 0) (padded_line _)

theorem decode_encode_eq_ite :
    decode (encode package) =
      if package.toJson.depth ≤ 127 then .ok package
      else .error (.fault (.malformed .tooDeep)) := by
  rw [encode_eq_append]
  exact decode_of_valueText sentinelHead_report (valueText_compact .package trivial package)
    (padded_line _)

/-- The line of a report is what is shown without its layout.  What is shown ends with one line
feed.  Behind a sentinel line it is decoded as the report is, to the package exactly when the wire
form nests at most 127 deep. -/
theorem jsonReport_agrees_with_encode :
    (∃ line, encode package = utf8 ("\n" ++ sentinel ++ "\n") ++ (line ++ [10]) ∧ 10 ∉ line ∧
      withoutLayout .outside (utf8 package.jsonReport) = line) ∧
    (∃ shown, utf8 package.jsonReport = shown ++ [10] ∧ shown.getLast? ≠ some 10) ∧
    decode (utf8 (sentinel ++ "\n") ++ utf8 package.jsonReport) = decode (encode package) ∧
    (decode (utf8 (sentinel ++ "\n") ++ utf8 package.jsonReport) = .ok package ↔
      package.toJson.depth ≤ 127) := by
  refine ⟨⟨utf8 package.toJson.compact, ?_, ?_, withoutLayout_jsonReport package⟩,
    ⟨_, utf8_jsonReport package, getLast?_indented_ne_lineFeed package⟩, ?_, ?_⟩
  · simp only [encode, reportText, utf8_append, List.append_assoc]
    rfl
  · exact (printable_compact .package trivial package).lineFeed_not_mem
  · rw [decode_jsonReport, decode_encode_eq_ite]
  · rw [decode_jsonReport]
    by_cases h : package.toJson.depth ≤ 127 <;> simp [h]

end Shown

end InterfaceProbe
