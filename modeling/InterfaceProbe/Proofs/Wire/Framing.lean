/-
# What probe output reports

The search for the sentinel line, said by the lines that have gone by, and
with it the whole of `decode`: probe output reports a package exactly when the
text behind its first sentinel line is one value, white space around it, that
means the package.  Nothing is accepted on any other ground.
-/

import InterfaceProbe.Proofs.Wire.TextReading

namespace InterfaceProbe

open Grammar Reader

/-- Whole lines of which the last one, and no other, is the sentinel. -/
inductive SentinelHead : Bytes → Prop
  | sentinel : SentinelHead (utf8 sentinel ++ [10])
  | line {line head : Bytes} : 10 ∉ line → line ≠ utf8 sentinel → SentinelHead head →
      SentinelHead (line ++ 10 :: head)

section Lines

theorem bne_of_not_mem {line : Bytes} (h : 10 ∉ line) : ∀ b ∈ line, (b != 10) = true := by
  intro b hb
  rw [bne_iff_ne]
  rintro rfl
  exact h hb

theorem firstLine?_append {line : Bytes} (h : 10 ∉ line) (rest : Bytes) :
    firstLine? (line ++ 10 :: rest) = some (line, rest) := by
  have hline := bne_of_not_mem h
  simp [firstLine?, List.dropWhile_append_of_pos hline, List.takeWhile_append_of_pos hline]

theorem firstLine?_of_not_mem {text : Bytes} (h : 10 ∉ text) : firstLine? text = none := by
  have hdrop : (text ++ []).dropWhile (· != 10) = [] := by
    rw [List.dropWhile_append_of_pos (bne_of_not_mem h)]
    rfl
  rw [List.append_nil] at hdrop
  rw [firstLine?, hdrop]

theorem firstLine?_eq_some_iff {text line rest : Bytes} :
    firstLine? text = some (line, rest) ↔ 10 ∉ line ∧ text = line ++ 10 :: rest := by
  apply Iff.intro
  · intro h
    by_cases hmem : 10 ∈ text
    · obtain ⟨line', rest', rfl, hline'⟩ := List.eq_append_cons_of_mem hmem
      rw [firstLine?_append hline'] at h
      cases h
      exact ⟨hline', rfl⟩
    · rw [firstLine?_of_not_mem hmem] at h
      cases h
  · intro h
    rcases h with ⟨hline, rfl⟩
    exact firstLine?_append hline rest

end Lines

section Payloads

theorem not_mem_utf8_sentinel : 10 ∉ utf8 sentinel := by decide

theorem payloadFrom_eq_ok_iff (skipped : Nat) {text payload : Bytes} :
    payloadFrom skipped text = .ok payload ↔
      ∃ head, SentinelHead head ∧ text = head ++ payload := by
  apply Iff.intro
  · intro h
    fun_induction payloadFrom skipped text with
    | case1 => cases h
    | case2 skipped text rest hline =>
        cases h
        obtain ⟨-, rfl⟩ := firstLine?_eq_some_iff.1 hline
        exact ⟨_, .sentinel, by simp⟩
    | case3 skipped text line rest hline hne ih =>
        obtain ⟨head, hhead, rfl⟩ := ih h
        obtain ⟨hfree, rfl⟩ := firstLine?_eq_some_iff.1 hline
        exact ⟨_, .line hfree hne hhead, by simp⟩
  · intro h
    rcases h with ⟨head, hhead, rfl⟩
    induction hhead generalizing skipped with
    | sentinel =>
        rw [List.append_assoc, payloadFrom]
        have hline := firstLine?_append not_mem_utf8_sentinel payload
        split
        · next hnone => cases hnone.symm.trans hline
        · next hsome =>
            cases hsome.symm.trans hline
            rw [if_pos rfl]
    | @line line head hfree hne _ ih =>
        rw [List.append_assoc, payloadFrom]
        have hline := firstLine?_append hfree (head ++ payload)
        split
        · next hnone => cases hnone.symm.trans hline
        · next hsome =>
            cases hsome.symm.trans hline
            rw [if_neg hne]
            exact ih _

theorem findPayload_eq_ok_iff {output payload : Bytes} :
    findPayload output = .ok payload ↔ ∃ head, SentinelHead head ∧ output = head ++ payload := by
  rw [← payloadFrom_eq_ok_iff 0, findPayload]
  cases payloadFrom 0 output <;> simp

/-- The text behind a sentinel line is found. -/
theorem SentinelHead.findPayload {head : Bytes} (h : SentinelHead head) (payload : Bytes) :
    findPayload (head ++ payload) = .ok payload :=
  findPayload_eq_ok_iff.2 ⟨head, h, rfl⟩

/-- An output has one first sentinel line. -/
theorem SentinelHead.unique {head other payload payload' : Bytes} (h : SentinelHead head)
    (hother : SentinelHead other) (heq : head ++ payload = other ++ payload') :
    head = other ∧ payload = payload' := by
  have hfound := h.findPayload payload
  rw [heq, hother.findPayload payload'] at hfound
  cases hfound
  exact ⟨List.append_cancel_right heq, rfl⟩

theorem decode_of_sentinelHead {head : Bytes} (h : SentinelHead head) (payload : Bytes) :
    decode (head ++ payload) =
      match readPackage payload with
      | .ok package => .ok package
      | .error fault => .error (.fault fault) := by
  have hfound := h.findPayload payload
  cases hread : readPackage payload with
  | ok package => simp only [decode, hfound, hread]
  | error fault => simp only [decode, hfound, hread]

/-- Without a sentinel line there is nothing to decode. -/
theorem decode_of_no_sentinelHead {output : Bytes}
    (h : ¬ ∃ head payload, SentinelHead head ∧ output = head ++ payload) :
    ∃ lines, decode output = .error (.noSentinel lines) := by
  cases hpayload : payloadFrom 0 output with
  | ok payload =>
      obtain ⟨head, hhead, rfl⟩ := (payloadFrom_eq_ok_iff _).1 hpayload
      exact absurd ⟨head, payload, hhead, rfl⟩ h
  | error lines => exact ⟨lines, by simp [decode, findPayload, hpayload]⟩

theorem decode_eq_ok_iff_readPackage {output : Bytes} {package : Package} :
    decode output = .ok package ↔
      ∃ head payload, SentinelHead head ∧ output = head ++ payload ∧
        readPackage payload = .ok package := by
  apply Iff.intro
  · intro h
    by_cases hhead : ∃ head payload, SentinelHead head ∧ output = head ++ payload
    · rcases hhead with ⟨head, payload, hhead, rfl⟩
      refine ⟨head, payload, hhead, rfl, ?_⟩
      rw [decode_of_sentinelHead hhead] at h
      split at h
      · next hread =>
          cases h
          exact hread
      · cases h
    · obtain ⟨lines, hlines⟩ := decode_of_no_sentinelHead hhead
      cases h.symm.trans hlines
  · intro h
    rcases h with ⟨head, payload, hhead, rfl, hread⟩
    rw [decode_of_sentinelHead hhead, hread]

end Payloads

section Packages

/-- A package is read from one value with white space around it. -/
theorem readPackage_eq_ok_iff {payload : Bytes} {package : Package} :
    readPackage payload = .ok package ↔
      ∃ text, Padded text payload ∧ TextMeans maxLevels text .package package := by
  have htakes := stream_package_takes maxLevels
  apply Iff.intro
  · intro h
    unfold readPackage at h
    split at h
    · cases h
    · next found rest hrun =>
        split at h
        · next hblank =>
            cases h
            obtain ⟨before, text, hbefore, htext, rfl⟩ := htakes.sound hrun
            exact ⟨text, ⟨before, rest, hbefore, skipBlank_eq_nil_iff.1 hblank, rfl⟩, htext⟩
        · cases h
  · intro h
    rcases h with ⟨text, ⟨before, after, hbefore, hafter, rfl⟩, htext⟩
    rw [readPackage, htakes.complete hbefore htext trivial]
    simp only [skipBlank_eq_nil_iff.2 hafter, if_true]

/-- Probe output reports a package exactly when the text behind its first sentinel line is one
value that means the package, white space around it aside. -/
theorem decode_eq_ok_iff_means (output : Bytes) (package : Package) :
    decode output = .ok package ↔
      ∃ head payload text, SentinelHead head ∧ output = head ++ payload ∧ Padded text payload ∧
        WellFormed text ∧ TextMeans maxLevels text .package package := by
  rw [decode_eq_ok_iff_readPackage]
  apply Iff.intro
  · intro h
    rcases h with ⟨head, payload, hhead, houtput, hread⟩
    obtain ⟨text, hpadded, htext⟩ := readPackage_eq_ok_iff.1 hread
    exact ⟨head, payload, text, hhead, houtput, hpadded, TextMeans.wellFormed htext, htext⟩
  · intro h
    rcases h with ⟨head, payload, text, hhead, houtput, hpadded, -, htext⟩
    exact ⟨head, payload, hhead, houtput, readPackage_eq_ok_iff.2 ⟨text, hpadded, htext⟩⟩

end Packages

end InterfaceProbe
