/-
# Cut-off and over-long output

Output that is accepted stays accepted without trailing white space and is
rejected when anything else is cut off or added.  The argument uses the reader
itself: a text that is accepted is taken before any rest, so a front part that
were accepted would leave, in the whole output, what was cut off.
-/

import InterfaceProbe.Proofs.Wire.RoundTrip

namespace InterfaceProbe

open Grammar Reader

section Ends

theorem Further.exists_last {close : UInt8} {members : List Bytes} {text : Bytes}
    (h : Further close members text) : ∃ front, text = front ++ [close] := by
  induction h with
  | close _ => exact ⟨_, rfl⟩
  | @comma before after member _ _ _ _ _ ih =>
      rcases ih with ⟨front, rfl⟩
      exact ⟨before ++ 44 :: (after ++ (member ++ front)), by simp⟩

theorem Members.exists_last {close : UInt8} {members : List Bytes} {text : Bytes}
    (h : Members close members text) : ∃ front, text = front ++ [close] := by
  cases h with
  | none _ => exact ⟨_, rfl⟩
  | @some blank member _ _ _ hfurther =>
      obtain ⟨front, rfl⟩ := Further.exists_last hfurther
      exact ⟨blank ++ (member ++ front), by simp⟩

/-- The text of a package ends with a bracket or a brace. -/
theorem exists_last_of_package {levels : Nat} {text : Bytes} {package : Package}
    (h : TextMeans levels text .package package) :
    ∃ front last, Reader.isBlank last = false ∧ text = front ++ [last] := by
  have hform : ∃ form, FormText form text := by
    cases levels with
    | zero =>
        rcases h with ⟨-, form, htext, -⟩
        exact ⟨form, htext⟩
    | succ levels =>
        rcases h with ⟨-, form, htext, -⟩
        exact ⟨form, htext⟩
  rcases hform with ⟨form, htext⟩
  cases form with
  | items values =>
      rcases htext with ⟨inside, hmembers, rfl⟩
      obtain ⟨front, rfl⟩ := Members.exists_last hmembers
      exact ⟨91 :: front, 93, by decide, rfl⟩
  | entries members =>
      rcases htext with ⟨texts, ⟨_, inside, -, hmembers, rfl⟩, -⟩
      obtain ⟨front, rfl⟩ := Members.exists_last hmembers
      exact ⟨123 :: front, 125, by decide, rfl⟩

end Ends

section Payloads

variable {payload : Bytes} {package : Package}

/-- White space at the end of a payload may be cut off. -/
theorem readPackage_of_append_blank {front tail : Bytes}
    (h : readPackage (front ++ tail) = .ok package) (htail : Blank tail) :
    readPackage front = .ok package := by
  obtain ⟨text, ⟨before, after, hbefore, hafter, heq⟩, htext⟩ := readPackage_eq_ok_iff.1 h
  obtain ⟨start, last, hlast, rfl⟩ := exists_last_of_package htext
  suffices hkept : ∃ kept, Blank kept ∧ front = before ++ ((start ++ [last]) ++ kept) by
    rcases hkept with ⟨kept, hkept, rfl⟩
    exact readPackage_eq_ok_iff.2 ⟨_, ⟨before, kept, hbefore, hkept, rfl⟩, htext⟩
  rw [← List.append_assoc] at heq
  rcases List.append_eq_append_iff.1 heq with ⟨cut, hvalue, hcut⟩ | ⟨kept, hfront, hkept⟩
  · rcases List.eq_nil_or_concat cut with rfl | ⟨cut', b, rfl⟩
    · exact ⟨[], Blank.nil, by simpa using hvalue.symm⟩
    · -- The cut would go through the value, whose last byte is no white space.
      have hb : last = b := by
        rw [List.concat_eq_append, ← List.append_assoc, ← List.append_assoc] at hvalue
        exact (List.cons.inj (List.append_inj' hvalue rfl).2).1
      have hblank : Reader.isBlank last = true := htail.isBlank (by simp [hcut, hb])
      rw [hlast] at hblank
      cases hblank
  · rw [hkept] at hafter
    refine ⟨kept, fun b hb => hafter b (List.mem_append_left tail hb), ?_⟩
    rw [hfront, List.append_assoc]

/-- Nothing but white space may follow an accepted payload. -/
theorem exists_fault_of_append {tail : Bytes} (h : readPackage payload = .ok package)
    (htail : ¬ Blank tail) : ∃ fault, readPackage (payload ++ tail) = .error fault := by
  obtain ⟨text, ⟨before, after, hbefore, hafter, rfl⟩, htext⟩ := readPackage_eq_ok_iff.1 h
  have hrun : (stream maxLevels .package).run (before ++ (text ++ (after ++ tail))) =
      .ok (package, after ++ tail) :=
    (stream_package_takes maxLevels).complete hbefore htext trivial
  have hrest : skipBlank (after ++ tail) ≠ [] := by
    rw [Ne, skipBlank_eq_nil_iff]
    exact fun hblank => htail hblank.of_append_right
  refine ⟨.malformed .trailingCharacters, ?_⟩
  rw [List.append_assoc, List.append_assoc, readPackage, hrun]
  simp only [if_neg hrest]

/-- A payload that loses more than white space is rejected. -/
theorem exists_fault_of_cut {front tail : Bytes}
    (h : readPackage (front ++ tail) = .ok package) (htail : ¬ Blank tail) :
    ∃ fault, readPackage front = .error fault := by
  cases hfront : readPackage front with
  | error fault => exact ⟨fault, rfl⟩
  | ok other =>
      obtain ⟨fault, hfault⟩ := exists_fault_of_append hfront htail
      cases h.symm.trans hfault

end Payloads

/-- Accepted output behind its first sentinel line: white space at its end may be cut off, any
other cut or addition is an error, and the error says whether the sentinel line was cut. -/
theorem decode_cut (output : Bytes) (package : Package) (h : decode output = .ok package) :
    ∃ head payload, SentinelHead head ∧ output = head ++ payload ∧
      (∀ front tail, output = front ++ tail → Blank tail → decode front = .ok package) ∧
      (∀ front tail, output = front ++ tail → ¬ Blank tail →
        if head <+: front then ∃ fault, decode front = .error (.fault fault)
        else ∃ lines, decode front = .error (.noSentinel lines)) ∧
      ∀ tail, ¬ Blank tail → ∃ fault, decode (output ++ tail) = .error (.fault fault) := by
  obtain ⟨head, payload, hhead, rfl, hread⟩ := decode_eq_ok_iff_readPackage.1 h
  refine ⟨head, payload, hhead, rfl, fun front tail heq htail => ?_, fun front tail heq htail => ?_,
    fun tail htail => ?_⟩
  · have hprefix : head <+: front := by
      rcases List.append_eq_append_iff.1 heq with ⟨kept, rfl, -⟩ | ⟨cut, -, rfl⟩
      · exact List.prefix_append head kept
      · -- The whole payload would be white space.
        have hnil : readPackage [] = .ok package :=
          readPackage_of_append_blank hread htail.of_append_right
        cases hnil
    rcases hprefix with ⟨kept, rfl⟩
    rw [List.append_assoc, List.append_cancel_left_eq] at heq
    rw [heq] at hread
    rw [decode_of_sentinelHead hhead, readPackage_of_append_blank hread htail]
  · split
    · next hprefix =>
        rcases hprefix with ⟨kept, rfl⟩
        rw [List.append_assoc, List.append_cancel_left_eq] at heq
        rw [heq] at hread
        obtain ⟨fault, hfault⟩ := exists_fault_of_cut hread htail
        exact ⟨fault, by rw [decode_of_sentinelHead hhead, hfault]⟩
    · next hprefix =>
        apply decode_of_no_sentinelHead
        intro h
        rcases h with ⟨other, kept, hother, rfl⟩
        rw [List.append_assoc] at heq
        obtain ⟨rfl, -⟩ := hhead.unique hother heq
        exact hprefix (List.prefix_append head kept)
  · obtain ⟨fault, hfault⟩ := exists_fault_of_append hread htail
    exact ⟨fault, by rw [List.append_assoc, decode_of_sentinelHead hhead, hfault]⟩

/-- A package with an interface whose only method gives an error. -/
def closerPackage : Package :=
  ⟨"io", [⟨"Closer", [{ name := "Close", results := [{ type := .predeclared "error" }] }]⟩]⟩

/-- A report loses its line feed, the brace before that, or the line feed of its sentinel line, or it
is followed by a letter. -/
theorem decode_cut_of_report :
    decode (encode closerPackage) = .ok closerPackage ∧
      (∃ front, encode closerPackage = front ++ [10] ∧ decode front = .ok closerPackage) ∧
      (∃ front, encode closerPackage = front ++ [125, 10] ∧
        ∃ fault, decode front = .error (.fault fault)) ∧
      (∃ lines, decode (10 :: utf8 sentinel) = .error (.noSentinel lines)) ∧
      ∃ fault, decode (encode closerPackage ++ [120]) = .error (.fault fault) := by
  have hdecode : decode (encode closerPackage) = .ok closerPackage := by
    rw [← List.nil_append (encode _), decode_of_not_mem (by decide),
      readPackage_compact (by decide)]
  obtain ⟨head, payload, hhead, heq, hblank, hcut, hlonger⟩ := decode_cut _ _ hdecode
  obtain ⟨rfl, rfl⟩ := hhead.unique sentinelHead_report (heq.symm.trans (encode_eq_append _))
  obtain ⟨body, hbody⟩ : ∃ body, utf8 closerPackage.toJson.compact = body ++ [125] :=
    ⟨_, (List.dropLast_append_getLast (by decide)).symm⟩
  have hclosed : encode closerPackage = 10 :: (utf8 sentinel ++ [10]) ++ body ++ [125, 10] := by
    rw [heq, hbody]
    simp
  have hsplit : encode closerPackage =
      10 :: utf8 sentinel ++ ([10] ++ (utf8 closerPackage.toJson.compact ++ [10])) := by
    rw [heq]
    simp
  have hline := heq.trans (List.append_assoc _ (utf8 closerPackage.toJson.compact) [10]).symm
  refine ⟨hdecode, ⟨_, hline, hblank _ _ hline (by simp [Blank])⟩, ⟨_, hclosed, ?_⟩, ?_,
    hlonger [120] (by simp [Blank])⟩
  · have hfault := hcut _ _ hclosed (by simp [Blank])
    rwa [if_pos] at hfault
    exact List.prefix_append _ _
  · have hsolid : ¬ Blank ([10] ++ (utf8 closerPackage.toJson.compact ++ [10])) :=
      fun hall => absurd (hall 125 (by rw [hbody]; simp)) (by decide)
    have hshort := hcut _ _ hsplit hsolid
    rwa [if_neg] at hshort
    exact fun hprefix => absurd hprefix.length_le (by simp)

end InterfaceProbe
