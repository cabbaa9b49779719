/-
# Skipping values

A value that nobody asked for is passed over without being built.  Any depth
will do, so the open arrays and objects are kept in a list and not in nested
calls.  Words, punctuation, the grammar of numbers, the letters and digits of
escapes and control characters in literals are checked; whether escapes or
bytes form Unicode text and whether a number has a value is not.
-/

import InterfaceProbe.Json.Value

namespace InterfaceProbe.Reader

/-- What has been opened around the place that is being skipped. -/
inductive Enclosing
  | array | object
  deriving DecidableEq, Repr

/-- The rest after a literal whose opening quote has been taken. -/
def skippedLiteral : Bytes → Except Fault Bytes
  | [] => .error (.malformed .endInString)
  | b :: text =>
    if b = 34 then .ok text
    else if b = 92 then
      match text with
      | [] => .error (.malformed .endInString)
      | letter :: rest =>
        if letter = 117 then
          match _hquad : hexQuad rest with
          | .error fault => .error fault
          | .ok (_, rest') => skippedLiteral rest'
        else
          match shortEscape? letter with
          | none => .error (.malformed .invalidEscape)
          | some _ => skippedLiteral rest
    else if b < 32 then .error (.malformed .controlCharacter)
    else skippedLiteral text
termination_by text => text.length
decreasing_by
  · have := (hexQuad_suffix _hquad).length_le
    simp only [List.length_cons]
    omega
  · simp only [List.length_cons]
    omega
  · simp

theorem skippedLiteral_suffix {text rest : Bytes} (h : skippedLiteral text = .ok rest) :
    rest <:+ text := by
  fun_induction skippedLiteral text with
  | case1 | case3 | case4 | case6 | case8 => cases h
  | case2 =>
    cases h
    exact List.suffix_cons 34 _
  | case5 tail _ rest' hquad _ ih =>
    exact (ih h).trans ((hexQuad_suffix hquad).trans (List.suffix_append [92, 117] tail))
  | case7 letter tail _ _ _ _ ih => exact (ih h).trans (List.suffix_append [92, letter] tail)
  | case9 b tail _ _ _ ih => exact (ih h).trans (List.suffix_cons b tail)

/-- The rest after a scalar whose first byte stands at the front of the text. -/
def skippedScalar (text : Bytes) : Except Fault Bytes :=
  match text with
  | [] => .error (.malformed .endInValue)
  | b :: rest =>
    if b = 110 then dropWord [117, 108, 108] rest
    else if b = 116 then dropWord [114, 117, 101] rest
    else if b = 102 then dropWord [97, 108, 115, 101] rest
    else if b = 34 then skippedLiteral rest
    else if b = 45 ∨ isDigit b then
      match unsignedLiteral (b == 45) (if b = 45 then rest else b :: rest) with
      | .error _ => .error (.malformed .invalidNumber)
      | .ok (_, rest') => .ok rest'
    else .error (.malformed .expectedValue)

theorem unsignedLiteral_length_lt {negative : Bool} {text rest : Bytes}
    {literal : NumberLiteral} (h : unsignedLiteral negative text = .ok (literal, rest)) :
    rest.length < text.length := by
  have hdigit : ∀ (text rest : Bytes) (digits : List Nat),
      wholeDigits text = .ok (digits, rest) → rest.length < text.length := by
    intro text rest digits h
    have hlength : leadingDigits text ≠ [] → (afterDigits text).length < text.length := by
      intro hne
      have htext :=
        congrArg List.length (List.takeWhile_append_dropWhile (p := isDigit) (l := text))
      have hpos : (text.takeWhile isDigit).length ≠ 0 := by
        intro hzero
        exact hne (by simp [leadingDigits, List.length_eq_zero_iff.1 hzero])
      rw [List.length_append] at htext
      unfold afterDigits
      omega
    unfold wholeDigits at h
    split at h
    · cases h
    · next hdigits =>
      cases h
      exact hlength (by simp [hdigits])
    · cases h
    · next hdigits _ _ =>
      cases h
      exact hlength hdigits
  unfold unsignedLiteral at h
  split at h
  · cases h
  · next hwhole =>
    split at h
    · cases h
    · next hfraction =>
      split at h
      · cases h
      · next hexponent =>
        cases h
        have := hdigit _ _ _ hwhole
        have := (fractionDigits_suffix hfraction).length_le
        have := (exponentDigits_suffix hexponent).length_le
        omega

theorem skippedScalar_suffix {text rest : Bytes} (h : skippedScalar text = .ok rest) :
    rest <:+ text ∧ rest.length < text.length := by
  unfold skippedScalar at h
  split at h
  · cases h
  · next b tail =>
    have hcons := List.suffix_cons b tail
    have of_tail : rest <:+ tail → rest <:+ b :: tail ∧ rest.length < (b :: tail).length :=
      fun hrest => ⟨hrest.trans hcons, Nat.lt_succ_of_le hrest.length_le⟩
    split at h
    · exact of_tail (dropWord_suffix h)
    split at h
    · exact of_tail (dropWord_suffix h)
    split at h
    · exact of_tail (dropWord_suffix h)
    split at h
    · exact of_tail (skippedLiteral_suffix h)
    split at h
    · split at h
      · cases h
      · next hliteral =>
        cases h
        by_cases hb : b = 45
        · rw [if_pos hb] at hliteral
          exact of_tail (unsignedLiteral_suffix hliteral)
        · rw [if_neg hb] at hliteral
          exact ⟨unsignedLiteral_suffix hliteral, unsignedLiteral_length_lt hliteral⟩
    · cases h

/-- The rest after the key of an entry and its colon. -/
def skippedKey (text : Bytes) : Except Fault Bytes :=
  match skipBlank text with
  | [] => .error (.malformed .endInObject)
  | b :: rest =>
    if b = 34 then
      match skippedLiteral rest with
      | .error fault => .error fault
      | .ok rest =>
        match skipBlank rest with
        | [] => .error (.malformed .endInObject)
        | c :: rest => if c = 58 then .ok rest else .error (.malformed .expectedColon)
    else .error (.malformed .keyNotString)

theorem skippedKey_suffix {text rest : Bytes} (h : skippedKey text = .ok rest) :
    rest <:+ text ∧ rest.length < text.length := by
  unfold skippedKey at h
  split at h
  · cases h
  · next b tail hblank =>
    have htext := suffix_of_skipBlank hblank
    split at h
    · split at h
      · cases h
      · next middle hliteral =>
        have hmiddle := skippedLiteral_suffix hliteral
        split at h
        · cases h
        · next c tail' hblank' =>
          split at h
          · cases h
            have hrest : rest <:+ tail :=
              ((List.suffix_cons c _).trans (suffix_of_skipBlank hblank')).trans hmiddle
            refine ⟨(hrest.trans (List.suffix_cons b tail)).trans htext, ?_⟩
            have := hrest.length_le
            have := htext.length_le
            simp only [List.length_cons] at this
            omega
          · cases h
    · cases h

/-- The fault of a text that ends inside an array or object. -/
def Enclosing.unfinished : Enclosing → Malformed
  | .array => .endInArray
  | .object => .endInObject

/-- The fault of a text that goes on, after a value, with neither a comma nor the end. -/
def Enclosing.unseparated : Enclosing → Malformed
  | .array => .expectedArrayEnd
  | .object => .expectedObjectEnd

/-- The byte that closes an array or object. -/
def Enclosing.closing : Enclosing → UInt8
  | .array => 93
  | .object => 125

/-- What stands before a value inside: nothing in an array, a key and a colon in an object. -/
def Enclosing.lead : Enclosing → Bytes → Except Fault Bytes
  | .array, text => .ok text
  | .object, text => skippedKey text

theorem Enclosing.lead_suffix {enclosing : Enclosing} {text rest : Bytes}
    (h : enclosing.lead text = .ok rest) : rest <:+ text := by
  cases enclosing with
  | array =>
    cases h
    exact List.suffix_refl _
  | object => exact (skippedKey_suffix h).1

/-- What is due at a place of a value that is being skipped. -/
inductive Due
  /-- A value. -/
  | value
  /-- The first item or entry of what has just been opened, or its end. -/
  | first
  /-- A comma or the end of what encloses the value just passed. -/
  | next
  deriving DecidableEq, Repr

/-- The rest after what is due and after all that encloses it, innermost first. -/
def skippedFrom (due : Due) (enclosing : List Enclosing) (text : Bytes) : Except Fault Bytes :=
  match due with
  | .value =>
    match _hblank : skipBlank text with
    | [] => .error (.malformed .endInValue)
    | b :: rest =>
      if b = 91 then skippedFrom .first (.array :: enclosing) rest
      else if b = 123 then skippedFrom .first (.object :: enclosing) rest
      else
        match _hscalar : skippedScalar (b :: rest) with
        | .error fault => .error fault
        | .ok rest' => skippedFrom .next enclosing rest'
  | .first =>
    match enclosing with
    | [] => .ok text
    | innermost :: outer =>
      match _hblank : skipBlank text with
      | [] => .error (.malformed innermost.unfinished)
      | b :: rest =>
        if b = innermost.closing then skippedFrom .next outer rest
        else
          match _hlead : innermost.lead (b :: rest) with
          | .error fault => .error fault
          | .ok rest' => skippedFrom .value (innermost :: outer) rest'
  | .next =>
    match enclosing with
    | [] => .ok text
    | innermost :: outer =>
      match _hblank : skipBlank text with
      | [] => .error (.malformed innermost.unfinished)
      | b :: rest =>
        if b = 44 then
          match _hlead : innermost.lead rest with
          | .error fault => .error fault
          | .ok rest' => skippedFrom .value (innermost :: outer) rest'
        else if b = innermost.closing then skippedFrom .next outer rest
        else .error (.malformed innermost.unseparated)
termination_by 2 * text.length + if due = .value then 0 else 1
decreasing_by
  all_goals have htext := (suffix_of_skipBlank _hblank).length_le
  all_goals simp only [List.length_cons, if_true, if_false] at htext ⊢
  · omega
  · omega
  · have := (skippedScalar_suffix _hscalar).2
    simp only [List.length_cons] at this
    omega
  · omega
  · have := (Enclosing.lead_suffix _hlead).length_le
    simp only [List.length_cons] at this
    omega
  · have := (Enclosing.lead_suffix _hlead).length_le
    omega
  · omega

theorem skippedFrom_suffix {due : Due} {enclosing : List Enclosing} {text rest : Bytes}
    (h : skippedFrom due enclosing text = .ok rest) : rest <:+ text := by
  fun_induction skippedFrom due enclosing text with
  | case1 | case4 | case7 | case9 | case12 | case13 | case16 => cases h
  | case2 enclosing text tail hblank ih =>
    exact (ih h).trans ((List.suffix_cons 91 tail).trans (suffix_of_skipBlank hblank))
  | case3 enclosing text tail hblank _ ih =>
    exact (ih h).trans ((List.suffix_cons 123 tail).trans (suffix_of_skipBlank hblank))
  | case5 enclosing text b tail hblank _ _ middle hscalar ih =>
    exact (ih h).trans ((skippedScalar_suffix hscalar).1.trans (suffix_of_skipBlank hblank))
  | case6 | case11 =>
    cases h
    exact List.suffix_refl _
  | case8 text innermost outer tail hblank ih =>
    exact (ih h).trans ((List.suffix_cons _ tail).trans (suffix_of_skipBlank hblank))
  | case10 text innermost outer b tail hblank _ middle hlead ih =>
    exact (ih h).trans ((Enclosing.lead_suffix hlead).trans (suffix_of_skipBlank hblank))
  | case14 text innermost outer tail middle hlead hblank ih =>
    exact (ih h).trans ((Enclosing.lead_suffix hlead).trans
      ((List.suffix_cons 44 tail).trans (suffix_of_skipBlank hblank)))
  | case15 text innermost outer tail hblank _ ih =>
    exact (ih h).trans ((List.suffix_cons _ tail).trans (suffix_of_skipBlank hblank))

/-- Passes over one value, white space before it included. -/
def skipValue : Reader Unit where
  run text :=
    match skippedFrom .value [] text with
    | .error fault => .error fault
    | .ok rest => .ok ((), rest)
  rest_suffix {text} value rest h := by
    split at h
    · cases h
    · next hrest =>
      cases h
      exact skippedFrom_suffix hrest

end InterfaceProbe.Reader
