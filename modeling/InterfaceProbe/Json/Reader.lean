/-
# Readers of a text

A reader takes a value from the front of a text and leaves the rest, which is
always an unchanged suffix of the text.  That invariant is part of the type,
so loops over items and entries end because each round takes at least a comma.

The module supplies the sequencing of readers, the handling of blanks and
literal words, and the two loops of JSON: over the items of an array and over
the entries of an object.  What an item or an entry is, the caller says.
-/

import InterfaceProbe.Json.Fault

namespace InterfaceProbe

/-- A text as its bytes. -/
abbrev Bytes := List UInt8

/-- Takes a value from the front of a text and leaves a suffix of it. -/
structure Reader (α : Type) where
  /-- The value and the rest, or the first fault. -/
  run : Bytes → Except Fault (α × Bytes)
  rest_suffix : ∀ {text value rest}, run text = .ok (value, rest) → rest <:+ text

namespace Reader

/-- Takes nothing and answers with the value. -/
protected def pure {α : Type} (value : α) : Reader α where
  run text := .ok (value, text)
  rest_suffix h := by
    cases h
    exact List.suffix_refl _

/-- Reads on with what the first reader took. -/
protected def bind {α β : Type} (first : Reader α) (next : α → Reader β) : Reader β where
  run text :=
    match first.run text with
    | .error fault => .error fault
    | .ok (value, rest) => (next value).run rest
  rest_suffix {text} value rest h := by
    split at h
    · cases h
    · next found middle hfirst =>
      exact ((next found).rest_suffix h).trans (first.rest_suffix hfirst)

instance : Monad Reader where
  pure := Reader.pure
  bind := Reader.bind

/-- Fails with the fault. -/
def fail {α : Type} (fault : Fault) : Reader α where
  run _ := .error fault
  rest_suffix h := by cases h

/-- Fails because the text is malformed. -/
def malformed {α : Type} (cause : Malformed) : Reader α := fail (.malformed cause)

/-- Takes nothing; answers with the value or fails with the fault. -/
def ofExcept {α : Type} : Except Fault α → Reader α
  | .error fault => fail fault
  | .ok value => Reader.pure value

@[simp] theorem run_pure {α : Type} (value : α) (text : Bytes) :
    (pure value : Reader α).run text = .ok (value, text) := rfl

theorem run_bind {α β : Type} (first : Reader α) (next : α → Reader β) (text : Bytes) :
    (first >>= next).run text =
      match first.run text with
      | .error fault => .error fault
      | .ok (value, rest) => (next value).run rest := rfl

@[simp] theorem run_fail {α : Type} (fault : Fault) (text : Bytes) :
    (fail fault : Reader α).run text = .error fault := rfl

/-- Whether a byte is JSON white space: a blank, a tab, a line feed or a carriage return. -/
def isBlank (b : UInt8) : Bool := b == 32 || b == 9 || b == 10 || b == 13

/-- The text after its leading white space. -/
def skipBlank (text : Bytes) : Bytes := text.dropWhile isBlank

theorem suffix_of_skipBlank {text : Bytes} {b : UInt8} {rest : Bytes}
    (h : skipBlank text = b :: rest) : b :: rest <:+ text :=
  h ▸ List.dropWhile_suffix isBlank

/-- Takes white space and looks at the byte after it, which stays; `atEnd` when there is none. -/
def peek (atEnd : Malformed) : Reader UInt8 where
  run text :=
    match skipBlank text with
    | [] => .error (.malformed atEnd)
    | b :: rest => .ok (b, b :: rest)
  rest_suffix {text} value rest h := by
    split at h
    · cases h
    · next heq =>
      cases h
      exact suffix_of_skipBlank heq

/-- Takes white space and looks at the byte after it, if there is one. -/
def peek? : Reader (Option UInt8) where
  run text := .ok ((skipBlank text).head?, skipBlank text)
  rest_suffix h := by
    cases h
    exact List.dropWhile_suffix isBlank

/-- Takes one byte, if there is one. -/
def skip : Reader Unit where
  run text := .ok ((), text.drop 1)
  rest_suffix h := by
    cases h
    exact List.drop_suffix 1 _

/-- The rest after the letters of a word. -/
def dropWord : (letters text : Bytes) → Except Fault Bytes
  | [], text => .ok text
  | _ :: _, [] => .error (.malformed .endInValue)
  | letter :: letters, b :: text =>
    if b = letter then dropWord letters text else .error (.malformed .expectedLiteral)

theorem dropWord_suffix {letters text rest : Bytes} (h : dropWord letters text = .ok rest) :
    rest <:+ text := by
  induction letters generalizing text with
  | nil =>
    cases h
    exact List.suffix_refl _
  | cons letter letters ih =>
    cases text with
    | nil => cases h
    | cons b text =>
      simp only [dropWord] at h
      split at h
      · exact (ih h).trans (List.suffix_cons b text)
      · cases h

/-- Takes exactly the letters of a word, such as the rest of `null`. -/
def word (letters : Bytes) : Reader Unit where
  run text :=
    match dropWord letters text with
    | .error fault => .error fault
    | .ok rest => .ok ((), rest)
  rest_suffix {text} value rest h := by
    split at h
    · cases h
    · next hrest =>
      cases h
      exact dropWord_suffix hrest

/-- Takes white space and a colon. -/
def colon : Reader Unit := do
  let b ← peek .endInObject
  if b = 58 then skip else malformed .expectedColon

section Loops

variable {σ κ : Type}

/-- The items after the first, each after a comma, up to and including the bracket. -/
def itemsFrom (step : σ → Reader σ) (state : σ) (text : Bytes) : Except Fault (σ × Bytes) :=
  match _hblank : skipBlank text with
  | [] => .error (.malformed .endInArray)
  | b :: rest =>
    if b = 93 then .ok (state, rest)
    else if b = 44 then
      match skipBlank rest with
      | [] => .error (.malformed .endInValue)
      | c :: _ =>
        if c = 93 then .error (.malformed .trailingComma)
        else
          match _hstep : (step state).run rest with
          | .error fault => .error fault
          | .ok (state', rest') => itemsFrom step state' rest'
    else .error (.malformed .expectedArrayEnd)
termination_by text.length
decreasing_by
  have hrest := ((step state).rest_suffix _hstep).length_le
  have htext := (suffix_of_skipBlank _hblank).length_le
  simp only [List.length_cons] at htext
  omega

theorem itemsFrom_suffix {step : σ → Reader σ} {state value : σ} {text rest : Bytes}
    (h : itemsFrom step state text = .ok (value, rest)) : rest <:+ text := by
  fun_induction itemsFrom step state text with
  | case1 | case3 | case4 | case5 | case7 => cases h
  | case2 state text middle hblank =>
    cases h
    exact (List.suffix_cons 93 _).trans (suffix_of_skipBlank hblank)
  | case6 state text middle c _ _ _ state' rest' hstep hblank _ ih =>
    exact (ih h).trans (((step state).rest_suffix hstep).trans
      ((List.suffix_cons 44 _).trans (suffix_of_skipBlank hblank)))

/-- Folds the items of an array whose bracket has been taken, up to its closing bracket. -/
def items (step : σ → Reader σ) (state : σ) : Reader σ where
  run text :=
    match skipBlank text with
    | [] => .error (.malformed .endInArray)
    | b :: rest =>
      if b = 93 then .ok (state, rest)
      else
        match (step state).run (b :: rest) with
        | .error fault => .error fault
        | .ok (state', rest') => itemsFrom step state' rest'
  rest_suffix {text} value rest h := by
    split at h
    · cases h
    · next b middle hblank =>
      have hmiddle := suffix_of_skipBlank hblank
      split at h
      · cases h
        exact (List.suffix_cons b _).trans hmiddle
      · split at h
        · cases h
        · next hstep =>
          exact (itemsFrom_suffix h).trans (((step state).rest_suffix hstep).trans hmiddle)

/-- The entries after the first, each after a comma, up to and including the brace.  An entry is
read by `entry`, which starts before its key. -/
def entriesFrom (entry : σ → Reader σ) (state : σ) (text : Bytes) : Except Fault (σ × Bytes) :=
  match _hblank : skipBlank text with
  | [] => .error (.malformed .endInObject)
  | b :: rest =>
    if b = 125 then .ok (state, rest)
    else if b = 44 then
      match skipBlank rest with
      | [] => .error (.malformed .endInValue)
      | c :: _ =>
        if c = 34 then
          match _hentry : (entry state).run rest with
          | .error fault => .error fault
          | .ok (state', rest') => entriesFrom entry state' rest'
        else if c = 125 then .error (.malformed .trailingComma)
        else .error (.malformed .keyNotString)
    else .error (.malformed .expectedObjectEnd)
termination_by text.length
decreasing_by
  have hrest := ((entry state).rest_suffix _hentry).length_le
  have htext := (suffix_of_skipBlank _hblank).length_le
  simp only [List.length_cons] at htext
  omega

theorem entriesFrom_suffix {entry : σ → Reader σ} {state value : σ} {text rest : Bytes}
    (h : entriesFrom entry state text = .ok (value, rest)) : rest <:+ text := by
  fun_induction entriesFrom entry state text with
  | case1 | case3 | case4 | case6 | case7 | case8 => cases h
  | case2 state text middle hblank =>
    cases h
    exact (List.suffix_cons 125 _).trans (suffix_of_skipBlank hblank)
  | case5 state text middle _ state' rest' hentry hblank _ _ ih =>
    exact (ih h).trans (((entry state).rest_suffix hentry).trans
      ((List.suffix_cons 44 _).trans (suffix_of_skipBlank hblank)))

/-- Folds the entries of an object whose brace has been taken, up to its closing brace. -/
def entries (entry : σ → Reader σ) (state : σ) : Reader σ where
  run text :=
    match skipBlank text with
    | [] => .error (.malformed .endInObject)
    | b :: rest =>
      if b = 125 then .ok (state, rest)
      else if b = 34 then
        match (entry state).run (b :: rest) with
        | .error fault => .error fault
        | .ok (state', rest') => entriesFrom entry state' rest'
      else .error (.malformed .keyNotString)
  rest_suffix {text} value rest h := by
    split at h
    · cases h
    · next b middle hblank =>
      have hmiddle := suffix_of_skipBlank hblank
      split at h
      · cases h
        exact (List.suffix_cons b _).trans hmiddle
      · split at h
        · split at h
          · cases h
          · next hentry =>
            exact (entriesFrom_suffix h).trans (((entry state).rest_suffix hentry).trans hmiddle)
        · cases h

end Loops

end Reader

end InterfaceProbe
