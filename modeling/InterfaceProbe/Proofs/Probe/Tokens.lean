/-
# Comments, literals and code of a program

The lexical rules that tell string literals and comments of a program from its
code.  A quote in the code begins a literal, which ends at the next quote that
no escape holds, on the same line.  Two slashes in the code begin a comment,
which the next line feed ends.  A text that breaks the rules of literals has no
tokens.  Nor has one with a raw literal, a character literal or a comment
between a slash with a star and a star with a slash: these rules leave them
out, so that a text with tokens has none.

What has been read of a text is the text of the tokens so far and of what is
pending, and no literal goes beyond its line.
-/

import InterfaceProbe.Proofs.Probe.Literals

namespace InterfaceProbe

namespace Program

section Rules

/-- A part of the text of a program. -/
inductive Token
  /-- A character of the code. -/
  | code (c : Char)
  /-- A comment with its slashes, without the line feed behind it. -/
  | comment (text : List Char)
  /-- A string literal with its quotes, and the bytes it stands for. -/
  | literal (source : List Char) (value : Bytes)
  deriving DecidableEq, Repr

/-- The text of a token. -/
def Token.source : Token → List Char
  | .code c => [c]
  | .comment text => text
  | .literal source _ => source

/-- The text of a token, with nothing between the quotes of a literal. -/
def Token.blanked : Token → List Char
  | .literal _ _ => ['\"', '\"']
  | token => token.source

/-- Where in a program a character stands. -/
inductive State
  /-- In the code. -/
  | code
  /-- In the code, behind a slash. -/
  | slash
  /-- In a comment, of which there is the given text. -/
  | comment (text : List Char)
  /-- In a literal, of which there is the given text, which stands for the given bytes. -/
  | literal (spot : Spot) (source : List Char) (value : Bytes)
  deriving DecidableEq, Repr

/-- The step over a character of the code. -/
def codeStep? (c : Char) : Option (List Token × State) :=
  if c = '\"' then some ([], .literal .plain [c] [])
  else if c = '/' then some ([], .slash)
  else if c = '\x60' ∨ c = '\x27' then none
  else some ([.code c], .code)

/-- The step over a character of a program: the tokens that are complete with it, and the state
behind it. -/
def State.step? : State → Char → Option (List Token × State)
  | .code, c => codeStep? c
  | .slash, c =>
    if c = '/' then some ([], .comment ['/', '/'])
    else if c = '*' then none
    else (codeStep? c).map fun (tokens, next) => (.code '/' :: tokens, next)
  | .comment text, c =>
    if c = '\n' then some ([.comment text, .code c], .code)
    else some ([], .comment (text ++ [c]))
  | .literal spot source value, c =>
    if spot = .plain ∧ c = '\"' then some ([.literal (source ++ [c]) value], .code)
    else (spot.next? c).map fun (next, bytes) =>
      ([], .literal next (source ++ [c]) (value ++ bytes))

/-- The tokens that are complete with a text, and the state behind it. -/
def State.scan? (state : State) : List Char → Option (List Token × State)
  | [] => some ([], state)
  | c :: rest => do
    let (tokens, middle) ← state.step? c
    let (others, last) ← middle.scan? rest
    return (tokens ++ others, last)

/-- The tokens that the end of the program completes.  No literal is open there. -/
def State.finish? : State → Option (List Token)
  | .code => some []
  | .slash => some [.code '/']
  | .comment text => some [.comment text]
  | .literal .. => none

/-- The tokens of a program. -/
def tokens? (text : List Char) : Option (List Token) := do
  let (tokens, last) ← State.code.scan? text
  let others ← last.finish?
  return tokens ++ others

end Rules

section Runs

variable {state middle last : State} {front back text : List Char} {tokens others : List Token}
variable {c : Char}

theorem State.scan?_cons_eq_some_iff :
    state.scan? (c :: back) = some (tokens, last) ↔
      ∃ front others middle, state.step? c = some (front, middle) ∧
        middle.scan? back = some (others, last) ∧ tokens = front ++ others := by
  simp only [State.scan?, Option.bind_eq_bind, Option.bind_eq_some_iff, Option.pure_def,
    Option.some.injEq, Prod.mk.injEq, Prod.exists]
  apply Iff.intro
  · intro h
    rcases h with ⟨front, middle, hstep, others, last, hscan, rfl, rfl⟩
    exact ⟨front, others, middle, hstep, hscan, rfl⟩
  · intro h
    rcases h with ⟨front, others, middle, hstep, hscan, rfl⟩
    exact ⟨front, middle, hstep, others, last, hscan, rfl, rfl⟩

theorem State.scan?_cons (hstep : state.step? c = some (tokens, middle))
    (hback : middle.scan? back = some (others, last)) :
    state.scan? (c :: back) = some (tokens ++ others, last) :=
  State.scan?_cons_eq_some_iff.2 ⟨tokens, others, middle, hstep, hback, rfl⟩

theorem State.scan?_append (hfront : state.scan? front = some (tokens, middle))
    (hback : middle.scan? back = some (others, last)) :
    state.scan? (front ++ back) = some (tokens ++ others, last) := by
  induction front generalizing state tokens with
  | nil =>
      cases hfront
      exact hback
  | cons c front ih =>
      obtain ⟨first, rest, next, hstep, hscan, rfl⟩ := State.scan?_cons_eq_some_iff.1 hfront
      rw [List.append_assoc]
      exact State.scan?_cons hstep (ih hscan)

theorem tokens?_eq_some_iff :
    tokens? text = some tokens ↔
      ∃ front last others, State.code.scan? text = some (front, last) ∧
        last.finish? = some others ∧ front ++ others = tokens := by
  simp only [tokens?, Option.bind_eq_bind, Option.bind_eq_some_iff, Option.pure_def,
    Option.some.injEq, Prod.exists, exists_and_left]

theorem tokens?_of_scan? (h : State.code.scan? text = some (tokens, .code)) :
    tokens? text = some tokens :=
  tokens?_eq_some_iff.2 ⟨tokens, .code, [], h, rfl, List.append_nil tokens⟩

end Runs

section Kept

variable {state next last : State} {text : List Char} {tokens : List Token} {c : Char}

/-- The text in front of a state that no complete token holds. -/
def State.pending : State → List Char
  | .code => []
  | .slash => ['/']
  | .comment text => text
  | .literal _ source _ => source

/-- Literals that are on one line. -/
def Token.OnOneLine : Token → Prop
  | .literal source _ => '\n' ∉ source
  | _ => True

/-- Open literals that are on one line so far. -/
def State.OnOneLine : State → Prop
  | .literal _ source _ => '\n' ∉ source
  | _ => True

theorem sources_codeStep? (h : codeStep? c = some (tokens, next)) :
    tokens.flatMap Token.source ++ next.pending = [c] := by
  unfold codeStep? at h
  split at h
  · cases h
    rfl
  split at h
  · next hc =>
      cases h
      rw [hc]
      rfl
  split at h
  · cases h
  · cases h
    rfl

theorem onOneLine_codeStep? (h : codeStep? c = some (tokens, next)) :
    (∀ token ∈ tokens, token.OnOneLine) ∧ next.OnOneLine := by
  unfold codeStep? at h
  split at h
  · next hc =>
      cases h
      rw [hc]
      simp [State.OnOneLine]
  split at h
  · cases h
    simp [State.OnOneLine]
  split at h
  · cases h
  · cases h
    simp [Token.OnOneLine, State.OnOneLine]

/-- A step puts its character into a token or behind the pending text. -/
theorem sources_step? (h : state.step? c = some (tokens, next)) :
    tokens.flatMap Token.source ++ next.pending = state.pending ++ [c] := by
  cases state with
  | code => exact sources_codeStep? h
  | slash =>
      simp only [State.step?] at h
      split at h
      · next hc =>
          cases h
          rw [hc]
          rfl
      split at h
      · cases h
      · obtain ⟨⟨others, next⟩, hstep, heq⟩ := Option.map_eq_some_iff.1 h
        cases heq
        have hsources := sources_codeStep? hstep
        simpa [Token.source, State.pending] using hsources
  | comment text =>
      simp only [State.step?] at h
      split at h <;> cases h <;> simp [Token.source, State.pending]
  | literal spot source value =>
      simp only [State.step?] at h
      split at h
      · cases h
        simp [Token.source, State.pending]
      · obtain ⟨⟨later, bytes⟩, -, heq⟩ := Option.map_eq_some_iff.1 h
        cases heq
        rfl

/-- A step keeps literals on their line. -/
theorem onOneLine_step? (hstate : state.OnOneLine) (h : state.step? c = some (tokens, next)) :
    (∀ token ∈ tokens, token.OnOneLine) ∧ next.OnOneLine := by
  cases state with
  | code => exact onOneLine_codeStep? h
  | slash =>
      simp only [State.step?] at h
      split at h
      · cases h
        simp [State.OnOneLine]
      split at h
      · cases h
      · obtain ⟨⟨others, next⟩, hstep, heq⟩ := Option.map_eq_some_iff.1 h
        cases heq
        have hothers := onOneLine_codeStep? hstep
        simpa [Token.OnOneLine] using hothers
  | comment text =>
      simp only [State.step?] at h
      split at h <;> cases h <;> simp [Token.OnOneLine, State.OnOneLine]
  | literal spot source value =>
      simp only [State.step?] at h
      split at h
      · next hquote =>
          cases h
          simpa [Token.OnOneLine, State.OnOneLine, hquote.2] using hstate
      · obtain ⟨⟨later, bytes⟩, hnext, heq⟩ := Option.map_eq_some_iff.1 h
        cases heq
        have hc : '\n' ≠ c := by
          rintro rfl
          rw [Spot.next?_lineFeed] at hnext
          cases hnext
        simpa [State.OnOneLine, hc] using hstate

/-- A run loses nothing and adds nothing. -/
theorem sources_scan? (h : state.scan? text = some (tokens, last)) :
    tokens.flatMap Token.source ++ last.pending = state.pending ++ text := by
  induction text generalizing state tokens with
  | nil =>
      cases h
      rw [List.append_nil]
      rfl
  | cons c text ih =>
      obtain ⟨front, others, middle, hstep, hscan, rfl⟩ := State.scan?_cons_eq_some_iff.1 h
      rw [List.flatMap_append, List.append_assoc, ih hscan, ← List.append_assoc,
        sources_step? hstep, List.append_assoc]
      rfl

/-- A run keeps literals on their line. -/
theorem onOneLine_scan? (hstate : state.OnOneLine) (h : state.scan? text = some (tokens, last)) :
    (∀ token ∈ tokens, token.OnOneLine) ∧ last.OnOneLine := by
  induction text generalizing state tokens with
  | nil =>
      cases h
      exact ⟨by simp, hstate⟩
  | cons c text ih =>
      obtain ⟨front, others, middle, hstep, hscan, rfl⟩ := State.scan?_cons_eq_some_iff.1 h
      obtain ⟨hfront, hmiddle⟩ := onOneLine_step? hstate hstep
      obtain ⟨hothers, hlast⟩ := ih hmiddle hscan
      refine ⟨fun token htoken => ?_, hlast⟩
      exact (List.mem_append.1 htoken).elim (hfront token) (hothers token)

/-- No literal of a program goes beyond its line. -/
theorem onOneLine_tokens? (h : tokens? text = some tokens) :
    ∀ token ∈ tokens, token.OnOneLine := by
  obtain ⟨front, last, others, hscan, hothers, rfl⟩ := tokens?_eq_some_iff.1 h
  have hopening : State.code.OnOneLine := trivial
  obtain ⟨hfront, -⟩ := onOneLine_scan? hopening hscan
  have hend : ∀ token ∈ others, token.OnOneLine := by
    cases last <;> cases hothers <;> simp [Token.OnOneLine]
  intro token htoken
  exact (List.mem_append.1 htoken).elim (hfront token) (hend token)

end Kept

section Literals

variable {spot last : Spot} {text source : List Char} {value bytes : Bytes}

variable (source value) in
/-- A part of a literal leaves the literal open. -/
theorem scan?_of_advance? (h : spot.advance? text = some (last, bytes)) :
    (State.literal spot source value).scan? text =
      some ([], .literal last (source ++ text) (value ++ bytes)) := by
  induction text generalizing spot source value bytes with
  | nil =>
      cases h
      rw [List.append_nil, List.append_nil]
      rfl
  | cons c text ih =>
      obtain ⟨next, first, rest, hc, hrest, rfl⟩ := Spot.advance?_cons_eq_some_iff.1 h
      have hopen : ¬ (spot = .plain ∧ c = '\"') := by
        rintro ⟨rfl, rfl⟩
        cases hc
      have hstep : (State.literal spot source value).step? c =
          some ([], .literal next (source ++ [c]) (value ++ first)) := by
        simp [State.step?, hopen, hc]
      have hscan := State.scan?_cons hstep (ih _ _ hrest)
      simpa [List.append_assoc] using hscan

/-- The literal of a text is one token, which stands for the text. -/
theorem scan?_quoted (text : String) :
    State.code.scan? (quoted text).toList =
      some ([.literal (quoted text).toList (utf8 text)], .code) := by
  have hopening : State.code.step? '\"' = some ([], .literal .plain ['\"'] []) := rfl
  have hbody := scan?_of_advance? ['\"'] [] (advance?_quoted text)
  have hclosing : (State.literal .plain (['\"'] ++ text.toList.flatMap escaped)
      ([] ++ utf8 text)).scan? ['\"'] =
        some ([.literal (quoted text).toList (utf8 text)], .code) := by
    simp [State.scan?, State.step?, toList_quoted]
  have hscan := State.scan?_cons hopening (State.scan?_append hbody hclosing)
  rw [toList_quoted]
  simpa [toList_quoted] using hscan

end Literals

section Code

variable {front back text : List Char}

/-- Texts that begin in code and end in code. -/
def EndsInCode (text : List Char) : Prop := (State.code.scan? text).map Prod.snd = some .code

instance (text : List Char) : Decidable (EndsInCode text) :=
  inferInstanceAs (Decidable (_ = _))

theorem endsInCode_of_scan? {tokens : List Token}
    (h : State.code.scan? text = some (tokens, .code)) : EndsInCode text := by
  rw [EndsInCode, h]
  rfl

theorem EndsInCode.append (hfront : EndsInCode front) (hback : EndsInCode back) :
    EndsInCode (front ++ back) := by
  obtain ⟨⟨tokens, _⟩, hfront, rfl⟩ := Option.map_eq_some_iff.1 hfront
  obtain ⟨⟨others, _⟩, hback, rfl⟩ := Option.map_eq_some_iff.1 hback
  exact endsInCode_of_scan? (State.scan?_append hfront hback)

/-- Characters that stand for themselves in code. -/
def isInert (c : Char) : Bool := c ≠ '\"' && c ≠ '/' && c ≠ '\x60' && c ≠ '\x27'

/-- Inert characters are code. -/
theorem endsInCode_of_inert (h : ∀ c ∈ text, isInert c) : EndsInCode text := by
  induction text with
  | nil => rfl
  | cons c text ih =>
      have hc := h c List.mem_cons_self
      have htext := ih fun d hd => h d (List.mem_cons_of_mem c hd)
      have hstep : State.code.scan? [c] = some ([.code c], .code) := by
        simp only [isInert, Bool.and_eq_true, decide_eq_true_eq] at hc
        simp [State.scan?, State.step?, codeStep?, hc]
      exact (endsInCode_of_scan? hstep).append htext

end Code

end Program

end InterfaceProbe
