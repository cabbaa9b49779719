/-
# The first sentinel line

The search for the sentinel takes lines off the output and counts them.  Here its
result is said of the output as a whole: where it is cut, that it can be cut there
only, and how many lines there are when it is not cut at all.

A line is what a line feed ends, and it is the sentinel only byte for byte.  So an
indented sentinel, one before a carriage return and one inside of a line are none,
and neither is one behind the last line feed.
-/

import InterfaceProbe.Pipeline.Error
import InterfaceProbe.Proofs.Wire.RoundTrip

namespace InterfaceProbe

/-- The lines of a text that a line feed ends, without their line feeds. -/
def completeLines (text : Bytes) : List Bytes := (text.splitOn 10).dropLast

/-- The output is cut behind a complete line that is the sentinel, and no complete line in front of
it is. -/
structure CutAtSentinel (output front rest : Bytes) : Prop where
  split : output = front ++ (utf8 sentinel ++ 10 :: rest)
  startsLine : front = [] ∨ front.getLast? = some 10
  isFirst : utf8 sentinel ∉ completeLines front

section Lines

variable {line text rest : Bytes}

theorem completeLines_of_not_mem (h : 10 ∉ text) : completeLines text = [] := by
  rw [completeLines, List.splitOn_eq_singleton h]
  rfl

theorem completeLines_append (h : 10 ∉ line) (rest : Bytes) :
    completeLines (line ++ 10 :: rest) = line :: completeLines rest := by
  rw [completeLines, List.splitOn_append_cons_self_of_not_mem h,
    List.dropLast_cons_of_ne_nil (List.splitOn_ne_nil _ _)]
  rfl

theorem not_mem_of_firstLine?_eq_none (h : firstLine? text = none) : 10 ∉ text := by
  intro hmem
  obtain ⟨line, rest, rfl, hline⟩ := List.eq_append_cons_of_mem hmem
  rw [firstLine?_append hline] at h
  cases h

theorem count_lineFeed_append (h : 10 ∉ line) (rest : Bytes) :
    (line ++ 10 :: rest).count 10 = rest.count 10 + 1 := by
  rw [List.count_append, List.count_eq_zero_of_not_mem h, List.count_cons_self, Nat.zero_add]

end Lines

section Search

variable {front rest output : Bytes}

/-- Complete lines without the sentinel make the sentinel line behind them the first. -/
theorem sentinelHead_of_lines (hstart : front = [] ∨ front.getLast? = some 10)
    (hfirst : utf8 sentinel ∉ completeLines front) :
    SentinelHead (front ++ (utf8 sentinel ++ [10])) := by
  induction front using lines_induction with
  | last line hline =>
      rcases hstart with rfl | hlast
      · exact .sentinel
      · exact absurd (List.mem_of_getLast? hlast) hline
  | line line front hline ih =>
      rw [completeLines_append hline, List.mem_cons, not_or] at hfirst
      rw [List.append_assoc]
      refine .line hline (Ne.symm hfirst.1) (ih ?_ hfirst.2)
      rcases hstart with hnil | hlast
      · cases line <;> cases hnil
      · cases front with
        | nil => exact .inl rfl
        | cons b front =>
            rw [List.getLast?_append_of_ne_nil _ (List.cons_ne_nil _ _),
              List.getLast?_cons_cons] at hlast
            exact .inr hlast

/-- A head is some complete lines without the sentinel, and the sentinel line. -/
theorem exists_lines_of_sentinelHead {head : Bytes} (h : SentinelHead head) :
    ∃ front, head = front ++ (utf8 sentinel ++ [10]) ∧
      (front = [] ∨ front.getLast? = some 10) ∧ utf8 sentinel ∉ completeLines front := by
  induction h with
  | sentinel => exact ⟨[], rfl, .inl rfl, List.not_mem_nil⟩
  | @line line head hline hne _ ih =>
      obtain ⟨front, rfl, hstart, hfirst⟩ := ih
      refine ⟨line ++ 10 :: front, by rw [List.append_assoc]; rfl, .inr ?_, ?_⟩
      · rw [List.getLast?_append_of_ne_nil _ (List.cons_ne_nil _ _)]
        rcases hstart with rfl | hlast
        · rfl
        · rw [List.getLast?_cons, hlast]
          rfl
      · rw [completeLines_append hline, List.mem_cons, not_or]
        exact ⟨Ne.symm hne, hfirst⟩

theorem findPayload_eq_ok_iff_cut :
    findPayload output = .ok rest ↔ ∃ front, CutAtSentinel output front rest := by
  rw [findPayload_eq_ok_iff]
  apply Iff.intro
  · intro h
    rcases h with ⟨head, hhead, rfl⟩
    obtain ⟨front, rfl, hstart, hfirst⟩ := exists_lines_of_sentinelHead hhead
    exact ⟨front, by simp, hstart, hfirst⟩
  · intro h
    rcases h with ⟨front, hsplit, hstart, hfirst⟩
    exact ⟨_, sentinelHead_of_lines hstart hfirst, by simp [hsplit]⟩

/-- The search fails when it has gone through all complete lines. -/
theorem payloadFrom_eq_error_iff {skipped lines : Nat} {text : Bytes} :
    payloadFrom skipped text = .error lines ↔
      utf8 sentinel ∉ completeLines text ∧ lines = skipped + text.count 10 := by
  fun_induction payloadFrom skipped text with
  | case1 skipped text hnone =>
      have hfree := not_mem_of_firstLine?_eq_none hnone
      rw [completeLines_of_not_mem hfree, List.count_eq_zero_of_not_mem hfree]
      simp [eq_comm]
  | case2 skipped text rest hline =>
      obtain ⟨hfree, rfl⟩ := firstLine?_eq_some_iff.1 hline
      simp [completeLines_append hfree]
  | case3 skipped text line rest hline hne ih =>
      obtain ⟨hfree, rfl⟩ := firstLine?_eq_some_iff.1 hline
      rw [ih, completeLines_append hfree, count_lineFeed_append hfree, List.mem_cons, not_or,
        Nat.add_right_comm, Nat.add_assoc]
      simp [Ne.symm hne]

theorem findPayload_eq_error_iff {error : DecodeError} :
    findPayload output = .error error ↔
      utf8 sentinel ∉ completeLines output ∧ error = .noSentinel (output.count 10) := by
  have hcount : payloadFrom 0 output = .error (output.count 10) ↔
      utf8 sentinel ∉ completeLines output := by
    rw [payloadFrom_eq_error_iff, Nat.zero_add, and_iff_left rfl]
  rw [← hcount, findPayload]
  cases hfound : payloadFrom 0 output with
  | ok payload => simp
  | error lines =>
      obtain ⟨-, rfl⟩ := payloadFrom_eq_error_iff.1 hfound
      simp [eq_comm]

end Search

/-- The output is cut behind the first complete line that is the sentinel.  There is at most one
such cut, and there is one exactly when a complete line is the sentinel.  Otherwise the error
is one of the protocol and counts the line feeds of the output. -/
theorem findPayload_cuts_at_first_sentinel (stdout : Bytes) :
    (∀ rest, findPayload stdout = .ok rest ↔ ∃ front, CutAtSentinel stdout front rest) ∧
    (∀ front rest front' rest', CutAtSentinel stdout front rest →
      CutAtSentinel stdout front' rest' → front = front' ∧ rest = rest') ∧
    ((∃ front rest, CutAtSentinel stdout front rest) ↔ utf8 sentinel ∈ completeLines stdout) ∧
    (∀ error, findPayload stdout = .error error ↔
      (¬ ∃ front rest, CutAtSentinel stdout front rest) ∧
        error = .noSentinel (stdout.count 10)) ∧
    ReflectError.ofDecodeError (.noSentinel (stdout.count 10)) =
      .protocol (sentinel ++ " line not found after " ++ Decimal.numeral (stdout.count 10) ++
        " line(s) of probe output") := by
  have hexists : (∃ front rest, CutAtSentinel stdout front rest) ↔
      utf8 sentinel ∈ completeLines stdout := by
    rw [exists_comm]
    simp only [← findPayload_eq_ok_iff_cut]
    cases hfound : findPayload stdout with
    | ok rest =>
        have hline : utf8 sentinel ∈ completeLines stdout := by
          by_contra hnone
          cases hfound.symm.trans (findPayload_eq_error_iff.2 ⟨hnone, rfl⟩)
        simp [hline]
    | error error => simp [(findPayload_eq_error_iff.1 hfound).1]
  refine ⟨fun rest => findPayload_eq_ok_iff_cut, ?_, hexists, fun error => ?_, rfl⟩
  · intro front rest front' rest' hcut hcut'
    have hfound := findPayload_eq_ok_iff_cut.2 ⟨front, hcut⟩
    rw [findPayload_eq_ok_iff_cut.2 ⟨front', hcut'⟩] at hfound
    cases hfound
    exact ⟨List.append_cancel_right (hcut.split.symm.trans hcut'.split), rfl⟩
  · rw [hexists, findPayload_eq_error_iff]

-- Neither an indented sentinel nor one before a carriage return is found.
example : findPayload (utf8 "a\n ENCODED_PKG\nENCODED_PKG\x0d\nENCODED_PKG") =
    .error (.noSentinel 3) := by decide +kernel

end InterfaceProbe
