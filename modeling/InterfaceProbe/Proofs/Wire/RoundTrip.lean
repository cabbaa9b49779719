/-
# A report behind anything

A report decodes to its package whatever was printed before it, as long as its
own sentinel line is the first one and it does not nest too deep.  Otherwise
there is a fault, and no other package: behind an earlier sentinel line stands
the report with its sentinel, and no value has a line that starts as the
sentinel does.

How a text of a package is laid out does not matter to that.  When it nests too
deep nothing else is wrong with it.
-/

import InterfaceProbe.Proofs.Json.Printable
import InterfaceProbe.Proofs.Wire.CompactForm
import InterfaceProbe.Proofs.Wire.FewerLevels

namespace InterfaceProbe

open Grammar Reader

/-- No line of the text starts with the first letter of the sentinel. -/
def Unmarked (text : Bytes) : Prop := ∀ before after, 10 :: text ≠ before ++ 10 :: 69 :: after

section Unmarked

theorem Unmarked.append {first second : Bytes} (hfirst : Unmarked first)
    (hsecond : Unmarked second) : Unmarked (first ++ second) := by
  intro before after h
  rw [← List.cons_append] at h
  rcases List.append_eq_append_iff.1 h with ⟨cut, hbefore, hcut⟩ | ⟨cut, htext, hcut⟩
  · exact hsecond (10 :: cut) after (by rw [hcut]; rfl)
  · match cut, hcut with
    | [], hcut => exact hsecond [10] after (congrArg (List.cons 10) hcut.symm)
    | [_], hcut => exact hsecond [] after (congrArg (List.cons 10) (List.cons.inj hcut).2.symm)
    | _ :: _ :: cut, hcut =>
        simp only [List.cons_append, List.cons.injEq] at hcut
        rcases hcut with ⟨rfl, rfl, -⟩
        exact hfirst before cut htext

theorem Unmarked.of_not_mem {text : Bytes} (h : 69 ∉ text) : Unmarked text := by
  intro before after heq
  have hmem : (69 : UInt8) ∈ 10 :: text := by
    rw [heq]
    simp
  rcases List.mem_cons.1 hmem with hbyte | hmem
  · cases hbyte
  · exact h hmem

/-- A text on one line is marked by its first byte only. -/
theorem Unmarked.of_one_line {text : Bytes} (h : 10 ∉ text) (hhead : 69 ∉ text.head?) :
    Unmarked text := by
  intro before after heq
  cases before with
  | nil =>
      obtain ⟨-, rfl⟩ := List.cons.inj heq
      exact hhead rfl
  | cons b before =>
      obtain ⟨-, rfl⟩ := List.cons.inj heq
      exact h (by simp)

theorem Unmarked.of_blank {text : Bytes} (h : Blank text) : Unmarked text := by
  apply Unmarked.of_not_mem
  intro hmem
  rcases h 69 hmem with hbyte | hbyte | hbyte | hbyte <;> cases hbyte

theorem Unmarked.of_looseString {text : Bytes} (h : LooseString text) : Unmarked text := by
  refine .of_one_line h.printable.lineFeed_not_mem ?_
  rcases h with ⟨inside, -, rfl⟩
  simp

section Containers

variable {close : UInt8} {members : List Bytes} {text : Bytes}

theorem Unmarked.of_further (hclose : close ≠ 69) (h : Further close members text)
    (hmembers : ∀ member ∈ members, Unmarked member) : Unmarked text := by
  induction h with
  | close hblank =>
      exact (Unmarked.of_blank hblank).append (.of_not_mem (by simpa using hclose.symm))
  | @comma before after member text members hbefore hafter _ ih =>
      have hcomma : Unmarked [44] := .of_not_mem (by decide)
      have hmember := hmembers member List.mem_cons_self
      have hrest := ih fun other hother => hmembers other (List.mem_cons_of_mem member hother)
      exact (Unmarked.of_blank hbefore).append
        (hcomma.append ((Unmarked.of_blank hafter).append (hmember.append hrest)))

theorem Unmarked.of_members (hclose : close ≠ 69) (h : Members close members text)
    (hmembers : ∀ member ∈ members, Unmarked member) : Unmarked text := by
  cases h with
  | none hblank =>
      exact (Unmarked.of_blank hblank).append (.of_not_mem (by simpa using hclose.symm))
  | some hblank hfurther =>
      have hmember := hmembers _ List.mem_cons_self
      have hrest := Unmarked.of_further hclose hfurther fun other hother =>
        hmembers other (List.mem_cons_of_mem _ hother)
      exact (Unmarked.of_blank hblank).append (hmember.append hrest)

end Containers

/-- No line of a value starts with the first letter of the sentinel. -/
theorem Unmarked.of_wellFormed {text : Bytes} (h : WellFormed text) : Unmarked text := by
  induction h with
  | null | true | false => exact .of_not_mem (by decide)
  | number hnumber =>
      refine .of_one_line hnumber.printable.lineFeed_not_mem fun hhead => ?_
      obtain ⟨b, tail, rfl, hb⟩ := exists_cons_of_numberText hnumber
      cases hhead
      revert hb
      decide
  | string hstring => exact .of_looseString hstring
  | array htext _ ih =>
      rcases htext with ⟨inside, hmembers, rfl⟩
      have hopen : Unmarked [91] := .of_not_mem (by decide)
      exact hopen.append (.of_members (by decide) hmembers ih)
  | object htext hkeys _ ih =>
      rcases htext with ⟨texts, inside, htexts, hmembers, rfl⟩
      have hopen : Unmarked [123] := .of_not_mem (by decide)
      refine hopen.append (.of_members (by decide) hmembers fun text htext => ?_)
      obtain ⟨entry, hentry, before, after, hbefore, hafter, rfl⟩ :=
        exists_related_of_mem htexts.flip htext
      have hcolon : Unmarked [58] := .of_not_mem (by decide)
      exact (Unmarked.of_looseString (hkeys entry hentry)).append
        ((Unmarked.of_blank hbefore).append
          (hcolon.append ((Unmarked.of_blank hafter).append (ih entry hentry))))

theorem Unmarked.of_padded {text payload : Bytes} (h : WellFormed text)
    (hpayload : Padded text payload) : Unmarked payload := by
  rcases hpayload with ⟨before, after, hbefore, hafter, rfl⟩
  exact (Unmarked.of_blank hbefore).append
    ((Unmarked.of_wellFormed h).append (.of_blank hafter))

end Unmarked

section Noise

/-- A text is its last line, or a line, a line feed and a text. -/
theorem lines_induction {motive : Bytes → Prop} (last : ∀ line, 10 ∉ line → motive line)
    (line : ∀ line rest, 10 ∉ line → motive rest → motive (line ++ 10 :: rest)) (text : Bytes) :
    motive text := by
  induction hlength : text.length using Nat.strongRecOn generalizing text with
  | _ length ih =>
      subst hlength
      by_cases hmem : 10 ∈ text
      · obtain ⟨front, rest, rfl, hfront⟩ := List.eq_append_cons_of_mem hmem
        refine line front rest hfront (ih rest.length ?_ rest rfl)
        rw [List.length_append, List.length_cons]
        omega
      · exact last text hmem

/-- Where no line is the sentinel, a sentinel line behind it is the first. -/
theorem sentinelHead_of_not_mem {noise : Bytes} (h : utf8 sentinel ∉ noise.splitOn 10) :
    SentinelHead (noise ++ 10 :: (utf8 sentinel ++ [10])) := by
  induction noise using lines_induction with
  | last line hline =>
      rw [List.splitOn_eq_singleton hline, List.mem_singleton] at h
      exact .line hline (Ne.symm h) .sentinel
  | line line rest hline ih =>
      rw [List.splitOn_append_cons_self_of_not_mem hline, List.mem_cons, not_or] at h
      rw [List.append_assoc]
      exact .line hline (Ne.symm h.1) (ih h.2)

/-- Where a line is the sentinel, what follows the first such line is nothing or ends with a line
feed, once the last line is ended. -/
theorem exists_sentinelHead_of_mem {noise : Bytes} (h : utf8 sentinel ∈ noise.splitOn 10) :
    ∃ head rest, SentinelHead head ∧ noise ++ [10] = head ++ rest ∧
      (rest = [] ∨ ∃ front, rest = front ++ [10]) := by
  induction noise using lines_induction with
  | last line hline =>
      rw [List.splitOn_eq_singleton hline, List.mem_singleton] at h
      exact ⟨_, [], .sentinel, by rw [h, List.append_nil], .inl rfl⟩
  | line line rest hline ih =>
      by_cases hsentinel : line = utf8 sentinel
      · refine ⟨_, rest ++ [10], .sentinel, ?_, .inr ⟨rest, rfl⟩⟩
        rw [hsentinel, List.append_assoc, List.append_assoc]
        rfl
      · rw [List.splitOn_append_cons_self_of_not_mem hline, List.mem_cons] at h
        obtain ⟨head, kept, hhead, heq, hkept⟩ := ih (h.resolve_left (Ne.symm hsentinel))
        refine ⟨_, kept, .line hline hsentinel hhead, ?_, hkept⟩
        rw [List.append_assoc, List.cons_append, heq, List.append_assoc]
        rfl

end Noise

section Payloads

theorem ends_of_blank {blank : Bytes} (h : Blank blank) : Ends blank := by
  intro b hb
  rcases h b (List.mem_of_mem_head? hb) with rfl | rfl | rfl | rfl <;> decide

/-- A payload has one value with white space around it. -/
theorem padded_unique {text other payload : Bytes} (h : Padded text payload)
    (hother : Padded other payload) (htext : WellFormed text) (hwell : WellFormed other) :
    text = other := by
  have hrun {value : Bytes} (hvalue : WellFormed value) (hpayload : Padded value payload) :
      ∃ rest, captured.run payload = .ok (value, rest) := by
    rcases hpayload with ⟨before, after, hbefore, hafter, rfl⟩
    exact ⟨after, captured_takes.complete hbefore ⟨hvalue, rfl⟩ (ends_of_blank hafter)⟩
  obtain ⟨rest, hrest⟩ := hrun htext h
  obtain ⟨rest', hrest'⟩ := hrun hwell hother
  cases hrest.symm.trans hrest'
  rfl

/-- Behind a sentinel line one value with white space around it is read. -/
theorem decode_padded_iff {head text payload : Bytes} (hhead : SentinelHead head)
    (htext : WellFormed text) (hpayload : Padded text payload) (package : Package) :
    decode (head ++ payload) = .ok package ↔ TextMeans maxLevels text .package package := by
  have hread : readPackage payload = .ok package ↔ TextMeans maxLevels text .package package := by
    rw [readPackage_eq_ok_iff]
    apply Iff.intro
    · intro hread
      rcases hread with ⟨other, hother, hmeans⟩
      rwa [← padded_unique hother hpayload (TextMeans.wellFormed hmeans) htext]
    · exact fun hmeans => ⟨text, hpayload, hmeans⟩
  rw [decode_of_sentinelHead hhead, ← hread]
  cases readPackage payload <;> simp

/-- A payload with a line that starts as the sentinel does describes no package. -/
theorem exists_fault_of_marked {payload : Bytes} (h : ¬ Unmarked payload) :
    ∃ fault, readPackage payload = .error fault := by
  cases hread : readPackage payload with
  | error fault => exact ⟨fault, rfl⟩
  | ok package =>
      obtain ⟨text, hpayload, htext⟩ := readPackage_eq_ok_iff.1 hread
      exact absurd (Unmarked.of_padded (TextMeans.wellFormed htext) hpayload) h

variable {package : Package} {text payload : Bytes}

/-- A text of the wire form is read at every number of levels that suffices. -/
theorem run_stream_of_valueText {levels : Nat} (htext : ValueText text package.toJson)
    (hlevels : package.toJson.depth ≤ levels) {before : Bytes} (hbefore : Blank before)
    (after : Bytes) :
    (stream levels .package).run (before ++ (text ++ after)) = .ok (package, after) := by
  have hmeans : TextMeans levels text .package package :=
    readsAs_of_spells (spells_of_valueText false .package trivial htext hlevels)
  exact (stream_package_takes levels).complete hbefore hmeans trivial

/-- Any text of the wire form is read as the package, unless the package nests too deep.  Then
that is the fault. -/
theorem readPackage_of_valueText (htext : ValueText text package.toJson)
    (hpayload : Padded text payload) :
    readPackage payload =
      if package.toJson.depth ≤ maxLevels then .ok package else .error (.malformed .tooDeep) := by
  rcases hpayload with ⟨before, after, hbefore, hafter, rfl⟩
  split
  · next hshallow =>
      rw [readPackage, run_stream_of_valueText htext hshallow hbefore]
      simp only [skipBlank_eq_nil_iff.2 hafter, if_true]
  · next hdeep =>
      have hfree := run_stream_of_valueText htext le_rfl hbefore after
      have hlimits : Limits (stream maxLevels .package) (stream package.toJson.depth .package) :=
        limits_stream (Nat.le_of_not_le hdeep) .package
      rcases hlimits (before ++ (text ++ after)) with hsame | hgives
      · -- With all its levels it is the package, which no text of that depth means.
        obtain ⟨blank, taken, hblank, hmeans, heq⟩ :=
          (stream_package_takes maxLevels).sound (hsame.trans hfree)
        have hpadded : Padded taken (before ++ (text ++ after)) :=
          ⟨blank, after, hblank, hafter, heq⟩
        obtain rfl := padded_unique hpadded ⟨before, after, hbefore, hafter, rfl⟩
          (TextMeans.wellFormed hmeans) htext.wellFormed
        exact absurd (depth_le_of_textMeans .package trivial htext hmeans)
          hdeep
      · rw [readPackage, hgives]

theorem padded_line (text : Bytes) : Padded text (text ++ [10]) :=
  ⟨[], [10], Blank.nil, by simp [Blank], rfl⟩

/-- The compact text of a package is read as the package when it nests within the levels. -/
theorem readPackage_compact (h : package.toJson.depth ≤ maxLevels) :
    readPackage (utf8 package.toJson.compact ++ [10]) = .ok package :=
  (readPackage_of_valueText (valueText_compact .package trivial package) (padded_line _)).trans
    (if_pos h)

/-- Nothing but its depth is wrong with the compact text of a package that nests deeper. -/
theorem readPackage_of_deep (h : maxLevels < package.toJson.depth) :
    readPackage (utf8 package.toJson.compact ++ [10]) = .error (.malformed .tooDeep) :=
  (readPackage_of_valueText (valueText_compact .package trivial package) (padded_line _)).trans
    (if_neg (Nat.not_le.2 h))

end Payloads

theorem encode_eq (package : Package) :
    encode package =
      10 :: (utf8 sentinel ++ 10 :: (utf8 package.toJson.compact ++ [10])) := by
  simp only [encode, reportText, utf8_append, List.append_assoc]
  rfl

/-- A report is a head up to its sentinel line and the line of the wire form behind. -/
theorem encode_eq_append (package : Package) :
    encode package =
      10 :: (utf8 sentinel ++ [10]) ++ (utf8 package.toJson.compact ++ [10]) := by
  rw [encode_eq]
  simp

theorem sentinelHead_report : SentinelHead (10 :: (utf8 sentinel ++ [10])) :=
  .line List.not_mem_nil (by decide) .sentinel

theorem marked_of_sentinel {rest : Bytes} (h : rest = [] ∨ ∃ front, rest = front ++ [10])
    (tail : Bytes) : ¬ Unmarked (rest ++ (utf8 sentinel ++ tail)) := by
  have hsentinel : ∃ letters, utf8 sentinel = 69 :: letters := ⟨_, rfl⟩
  rcases hsentinel with ⟨letters, hletters⟩
  rw [hletters]
  intro hunmarked
  rcases h with rfl | ⟨front, rfl⟩
  · exact hunmarked [] (letters ++ tail) rfl
  · exact hunmarked (10 :: front) (letters ++ tail) (by simp)

/-- A sentinel line before a report hides the report. -/
theorem exists_fault_of_forged {noise : Bytes} (h : utf8 sentinel ∈ noise.splitOn 10)
    (package : Package) : ∃ fault, decode (noise ++ encode package) = .error (.fault fault) := by
  obtain ⟨head, rest, hhead, heq, hrest⟩ := exists_sentinelHead_of_mem h
  obtain ⟨fault, hread⟩ := exists_fault_of_marked
    (marked_of_sentinel hrest (10 :: (utf8 package.toJson.compact ++ [10])))
  refine ⟨fault, ?_⟩
  rw [encode_eq, List.append_cons, heq, List.append_assoc, decode_of_sentinelHead hhead, hread]

/-- Without one the report is all that counts. -/
theorem decode_of_not_mem {noise : Bytes} (h : utf8 sentinel ∉ noise.splitOn 10)
    (package : Package) :
    decode (noise ++ encode package) =
      match readPackage (utf8 package.toJson.compact ++ [10]) with
      | .ok found => .ok found
      | .error fault => .error (.fault fault) := by
  rw [encode_eq_append, ← List.append_assoc]
  exact decode_of_sentinelHead (sentinelHead_of_not_mem h) _

/-- A report is decoded to its package, whatever stands before it, exactly when it nests at most
127 deep and no line before it is the sentinel; otherwise there is a fault. -/
theorem decode_append_encode (noise : Bytes) (package : Package) :
    (decode (noise ++ encode package) = .ok package ↔
      package.toJson.depth ≤ 127 ∧ utf8 sentinel ∉ noise.splitOn 10) ∧
    (decode (noise ++ encode package) = .ok package ∨
      ∃ fault, decode (noise ++ encode package) = .error (.fault fault)) := by
  have hcases : (package.toJson.depth ≤ 127 ∧ utf8 sentinel ∉ noise.splitOn 10) ∧
      decode (noise ++ encode package) = .ok package ∨
      ¬ (package.toJson.depth ≤ 127 ∧ utf8 sentinel ∉ noise.splitOn 10) ∧
        ∃ fault, decode (noise ++ encode package) = .error (.fault fault) := by
    by_cases hnoise : utf8 sentinel ∈ noise.splitOn 10
    · exact .inr ⟨fun h => h.2 hnoise, exists_fault_of_forged hnoise package⟩
    · by_cases hdeep : package.toJson.depth ≤ 127
      · exact .inl ⟨⟨hdeep, hnoise⟩, by rw [decode_of_not_mem hnoise, readPackage_compact hdeep]⟩
      · have hread := readPackage_of_deep (Nat.lt_of_not_le hdeep)
        exact .inr ⟨fun h => hdeep h.1, _, by rw [decode_of_not_mem hnoise, hread]⟩
  rcases hcases with ⟨hcondition, hok⟩ | ⟨hcondition, fault, hfault⟩
  · exact ⟨⟨fun _ => hcondition, fun _ => hok⟩, .inl hok⟩
  · rw [hfault]
    exact ⟨⟨fun hok => (by cases hok), fun h => absurd h hcondition⟩, .inr ⟨fault, rfl⟩⟩

end InterfaceProbe
