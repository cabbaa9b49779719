/-
# Reading with fewer levels

A bound on the arrays and objects that may be open changes nothing of what is read
but where it is met.  A reader with fewer levels gives the value, the rest and the
fault that one with more levels gives, or it gives up at a value that nests too deep.

This is a fact about the readers and holds on every text.
-/

import InterfaceProbe.Proofs.Json.Containers
import InterfaceProbe.Wire.Stream

namespace InterfaceProbe.Reader

variable {α β σ : Type}

/-- The reader does what the other one does, or it gives up at a value that nests too deep. -/
def Limits (limited free : Reader α) : Prop :=
  ∀ text, limited.run text = free.run text ∨ limited.run text = .error (.malformed .tooDeep)

section Turns

/-- One turn of the loop over items: it is over, or one more item is read, whatever an item is. -/
theorem itemsFrom_turn (text : Bytes) :
    (∃ outcome : σ → Except Fault (σ × Bytes),
      ∀ step state, itemsFrom step state text = outcome state) ∨
    ∃ tail, tail.length < text.length ∧ ∀ (step : σ → Reader σ) state,
      itemsFrom step state text =
        match (step state).run tail with
        | .error fault => .error fault
        | .ok (state', rest) => itemsFrom step state' rest := by
  cases hblank : skipBlank text with
  | nil =>
      refine .inl ⟨fun _ => .error (.malformed .endInArray), fun step state => ?_⟩
      rw [itemsFrom]
      split <;> simp_all
  | cons b tail =>
      have hlength := (suffix_of_skipBlank hblank).length_le
      by_cases hclose : b = 93
      · subst hclose
        exact .inl ⟨fun state => .ok (state, tail), fun _ _ => itemsFrom_of_bracket hblank⟩
      by_cases hcomma : b = 44
      · subst hcomma
        cases hnext : skipBlank tail with
        | nil =>
            refine .inl ⟨fun _ => .error (.malformed .endInValue), fun step state => ?_⟩
            rw [itemsFrom]
            split <;> simp_all
        | cons c after =>
            by_cases hbracket : c = 93
            · refine .inl ⟨fun _ => .error (.malformed .trailingComma), fun step state => ?_⟩
              rw [itemsFrom]
              split <;> simp_all
            · exact .inr ⟨tail, hlength, fun _ _ =>
                itemsFrom_eq_of_comma hblank (by rw [hnext]; rfl) hbracket⟩
      · refine .inl ⟨fun _ => .error (.malformed .expectedArrayEnd), fun step state => ?_⟩
        rw [itemsFrom]
        split <;> simp_all

/-- One turn of the loop over entries. -/
theorem entriesFrom_turn (text : Bytes) :
    (∃ outcome : σ → Except Fault (σ × Bytes),
      ∀ entry state, entriesFrom entry state text = outcome state) ∨
    ∃ tail, tail.length < text.length ∧ ∀ (entry : σ → Reader σ) state,
      entriesFrom entry state text =
        match (entry state).run tail with
        | .error fault => .error fault
        | .ok (state', rest) => entriesFrom entry state' rest := by
  cases hblank : skipBlank text with
  | nil =>
      refine .inl ⟨fun _ => .error (.malformed .endInObject), fun step state => ?_⟩
      rw [entriesFrom]
      split <;> simp_all
  | cons b tail =>
      have hlength := (suffix_of_skipBlank hblank).length_le
      by_cases hclose : b = 125
      · subst hclose
        exact .inl ⟨fun state => .ok (state, tail), fun _ _ => entriesFrom_of_brace hblank⟩
      by_cases hcomma : b = 44
      · subst hcomma
        cases hnext : skipBlank tail with
        | nil =>
            refine .inl ⟨fun _ => .error (.malformed .endInValue), fun step state => ?_⟩
            rw [entriesFrom]
            split <;> simp_all
        | cons c after =>
            by_cases hquote : c = 34
            · exact .inr ⟨tail, hlength, fun _ _ =>
                entriesFrom_eq_of_comma hblank (by rw [hnext, hquote]; rfl)⟩
            · refine .inl ⟨fun _ => .error (.malformed
                (if c = 125 then .trailingComma else .keyNotString)), fun step state => ?_⟩
              rw [entriesFrom]
              split <;> simp_all
              split <;> rfl
      · refine .inl ⟨fun _ => .error (.malformed .expectedObjectEnd), fun step state => ?_⟩
        rw [entriesFrom]
        split <;> simp_all

end Turns

namespace Limits

theorem refl (reader : Reader α) : Limits reader reader := fun _ => .inl rfl

theorem tooDeep (free : Reader α) : Limits (malformed .tooDeep) free := fun _ => .inr rfl

theorem bind {first first' : Reader α} {next next' : α → Reader β} (hfirst : Limits first first')
    (hnext : ∀ value, Limits (next value) (next' value)) :
    Limits (first >>= next) (first' >>= next') := by
  intro text
  rw [run_bind, run_bind]
  rcases hfirst text with heq | hdeep
  · rw [heq]
    cases first'.run text with
    | error fault => exact .inl rfl
    | ok found => exact hnext found.1 found.2
  · rw [hdeep]
    exact .inr rfl

/-- What is made of what was read. -/
theorem andThen {reader reader' : Reader α} (h : Limits reader reader') (next : α → Reader β) :
    Limits (reader >>= next) (reader' >>= next) :=
  h.bind fun value => refl (next value)

theorem behind (first : Reader α) {next next' : α → Reader β}
    (hnext : ∀ value, Limits (next value) (next' value)) :
    Limits (first >>= next) (first >>= next') :=
  (refl first).bind hnext

section Loops

variable {step step' : σ → Reader σ} (hstep : ∀ state, Limits (step state) (step' state))

include hstep

theorem itemsFrom (state : σ) (text : Bytes) :
    Reader.itemsFrom step state text = Reader.itemsFrom step' state text ∨
      Reader.itemsFrom step state text = .error (.malformed .tooDeep) := by
  induction hlength : text.length using Nat.strongRecOn generalizing state text with
  | _ length ih =>
      subst hlength
      rcases itemsFrom_turn text with ⟨outcome, hover⟩ | ⟨tail, htail, hturn⟩
      · exact .inl ((hover step state).trans (hover step' state).symm)
      · rw [hturn, hturn]
        rcases hstep state tail with heq | hdeep
        · rw [heq]
          cases hrun : (step' state).run tail with
          | error fault => exact .inl rfl
          | ok found =>
              have hrest := ((step' state).rest_suffix hrun).length_le
              exact ih found.2.length (by omega) found.1 found.2 rfl
        · rw [hdeep]
          exact .inr rfl

theorem items (state : σ) : Limits (Reader.items step state) (Reader.items step' state) := by
  intro text
  simp only [Reader.items]
  cases skipBlank text with
  | nil => exact .inl rfl
  | cons b rest =>
      by_cases hclose : b = 93
      · simp [hclose]
      · simp only [hclose, if_false]
        rcases hstep state (b :: rest) with heq | hdeep
        · rw [heq]
          cases (step' state).run (b :: rest) with
          | error fault => exact .inl rfl
          | ok found => exact itemsFrom hstep found.1 found.2
        · rw [hdeep]
          exact .inr rfl

theorem entriesFrom (state : σ) (text : Bytes) :
    Reader.entriesFrom step state text = Reader.entriesFrom step' state text ∨
      Reader.entriesFrom step state text = .error (.malformed .tooDeep) := by
  induction hlength : text.length using Nat.strongRecOn generalizing state text with
  | _ length ih =>
      subst hlength
      rcases entriesFrom_turn text with ⟨outcome, hover⟩ | ⟨tail, htail, hturn⟩
      · exact .inl ((hover step state).trans (hover step' state).symm)
      · rw [hturn, hturn]
        rcases hstep state tail with heq | hdeep
        · rw [heq]
          cases hrun : (step' state).run tail with
          | error fault => exact .inl rfl
          | ok found =>
              have hrest := ((step' state).rest_suffix hrun).length_le
              exact ih found.2.length (by omega) found.1 found.2 rfl
        · rw [hdeep]
          exact .inr rfl

theorem entries (state : σ) : Limits (Reader.entries step state) (Reader.entries step' state) := by
  intro text
  simp only [Reader.entries]
  cases skipBlank text with
  | nil => exact .inl rfl
  | cons b rest =>
      by_cases hclose : b = 125
      · simp [hclose]
      by_cases hquote : b = 34
      · simp only [hquote, if_true]
        rcases hstep state (34 :: rest) with heq | hdeep
        · rw [heq]
          cases (step' state).run (34 :: rest) with
          | error fault => exact .inl rfl
          | ok found => exact entriesFrom hstep found.1 found.2
        · rw [hdeep]
          exact .inr rfl
      · simp [hclose, hquote]

end Loops

end Limits

section Values

variable {levels more : Nat} (hlevels : levels ≤ more)

include hlevels

theorem limits_enter {inside inside' : Reader α} (h : 0 < levels → Limits inside inside') :
    Limits (enter levels inside) (enter more inside') := by
  unfold enter
  by_cases hzero : levels = 0
  · rw [if_pos hzero]
    exact .tooDeep _
  · rw [if_neg hzero, if_neg (by omega)]
    exact .behind skip fun _ => h (by omega)

theorem limits_value : Limits (value levels) (value more) := by
  induction levels generalizing more with
  | zero =>
      unfold value
      refine .behind _ fun b => ?_
      by_cases hbracket : b = 91
      · rw [if_pos hbracket]
        exact .tooDeep _
      by_cases hbrace : b = 123
      · rw [if_neg hbracket, if_pos hbrace]
        exact .tooDeep _
      · simp only [hbracket, hbrace, if_false]
        exact .refl _
  | succ levels ih =>
      obtain ⟨more, rfl⟩ := Nat.exists_eq_add_of_le' hlevels
      have hinner : Limits (value levels) (value (more + levels)) := ih (by omega)
      unfold value
      refine .behind _ fun b => ?_
      by_cases hbracket : b = 91
      · simp only [hbracket, if_true]
        refine .behind skip fun _ => (Limits.items (fun collected => ?_) []).andThen _
        exact hinner.andThen fun item => pure (item :: collected)
      by_cases hbrace : b = 123
      · simp only [hbrace, if_true]
        rw [if_neg (by decide), if_neg (by decide)]
        refine .behind skip fun _ => (Limits.entries (fun collected => ?_) []).andThen _
        exact .behind key fun name => .behind colon fun _ =>
          hinner.andThen fun item => pure ((name, item) :: collected)
      · simp only [hbracket, hbrace, if_false]
        exact .refl _

end Values

section Records

variable {record : Record α} {read read' : (slot : Slot) → Reader slot.Value}
  (hread : ∀ slot, Limits (read slot) (read' slot))

include hread

theorem limits_slotItems (index : Nat) (slots : List Slot) (draft : Draft) :
    Limits (slotItems record read index slots draft)
      (slotItems record read' index slots draft) := by
  induction slots generalizing index draft with
  | nil => exact .refl _
  | cons slot slots ih =>
      unfold slotItems
      refine .behind _ fun another => ?_
      cases another with
      | true => exact (hread slot).bind fun value => ih (index + 1) (draft.set slot value)
      | false => exact .refl _

theorem limits_slotEntry (draft : Draft) :
    Limits (slotEntry record read draft) (slotEntry record read' draft) := by
  unfold slotEntry
  refine .behind key fun name => .behind _ fun slot => .behind colon fun _ => ?_
  cases slot with
  | none => exact .refl _
  | some slot => exact (hread slot).andThen fun value => pure (draft.set slot value)

end Records

section Targets

variable {levels more : Nat} (hlevels : levels ≤ more)

include hlevels

theorem limits_recordValue {record : Record α} {read read' : (slot : Slot) → Reader slot.Value}
    (hread : ∀ slot, Limits (read slot) (read' slot)) :
    Limits (recordValue record read levels) (recordValue record read' more) := by
  unfold recordValue
  refine .behind _ fun b => ?_
  by_cases hbracket : b = 91
  · simp only [hbracket, if_true]
    exact (limits_enter hlevels fun _ => limits_slotItems hread 0 _ _).andThen _
  by_cases hbrace : b = 123
  · simp only [hbrace, if_true]
    rw [if_neg (by decide), if_neg (by decide)]
    exact (limits_enter hlevels fun _ => Limits.entries (limits_slotEntry hread) _).andThen _
  · simp only [hbracket, hbrace, if_false]
    exact .refl _

theorem limits_typeItem (found : Option (Kind × List Json)) :
    Limits (typeItem levels found) (typeItem more found) := by
  cases found with
  | none => exact .refl _
  | some found =>
      rcases found with ⟨kind, values⟩
      exact (limits_value hlevels).andThen fun item => pure (some (kind, item :: values))

theorem limits_typeEntry (found : Option Kind × List (String × Json)) :
    Limits (typeEntry levels found) (typeEntry more found) := by
  unfold typeEntry
  refine .behind key fun name => ?_
  by_cases hkey : name = kindKey
  · simp only [hkey, if_true]
    exact .refl _
  · simp only [hkey, if_false]
    exact .behind colon fun _ =>
      (limits_value hlevels).andThen fun item => pure (found.1, (name, item) :: found.2)

theorem limits_typeValue : Limits (typeValue levels) (typeValue more) := by
  have hinner : levels - 1 ≤ more - 1 := by omega
  unfold typeValue
  refine .behind _ fun b => ?_
  by_cases hbracket : b = 91
  · simp only [hbracket, if_true]
    exact (limits_enter hlevels fun _ => Limits.items (limits_typeItem hinner) none).andThen _
  by_cases hbrace : b = 123
  · simp only [hbrace, if_true]
    rw [if_neg (by decide), if_neg (by decide)]
    exact (limits_enter hlevels fun _ => Limits.entries (limits_typeEntry hinner) _).andThen _
  · simp only [hbracket, hbrace, if_false]
    exact .refl _

theorem limits_sequence {item item' : Reader α} (h : Limits item item') :
    Limits (sequence levels item) (sequence more item') := by
  unfold sequence
  refine .behind _ fun b => ?_
  by_cases hbracket : b = 91
  · simp only [hbracket, if_true]
    refine (limits_enter hlevels fun _ => Limits.items (fun collected => ?_) []).andThen _
    exact h.andThen fun value => pure (value :: collected)
  · simp only [hbracket, if_false]
    exact .refl _

theorem limits_targetValue {inner inner' : (target : Target) → Reader target.Value}
    (hinner : ∀ target, Limits (inner target) (inner' target)) (target : Target) :
    Limits (targetValue levels inner target) (targetValue more inner' target) := by
  induction target with
  | text | kind => exact .refl _
  | type => exact limits_typeValue hlevels
  | parameter | method | interface | package =>
      exact limits_recordValue hlevels fun slot => hinner slot.target
  | sequence target => exact limits_sequence hlevels (hinner target)
  | optional target ih =>
      unfold targetValue optional
      refine .behind _ fun b => ?_
      by_cases hnull : b = 110
      · simp only [hnull, if_true]
        exact .refl _
      · simp only [hnull, if_false]
        exact ih.andThen fun value => pure (some value)
  | int64 | dir | unit | field => exact (limits_value hlevels).andThen _

/-- With fewer levels a target is read as with more, or its text nests too deep. -/
theorem limits_stream (target : Target) : Limits (stream levels target) (stream more target) := by
  induction levels generalizing more target with
  | zero =>
      cases more with
      | zero => exact .refl _
      | succ more => exact limits_targetValue hlevels (fun target => .tooDeep _) target
  | succ levels ih =>
      obtain ⟨more, rfl⟩ := Nat.exists_eq_add_of_le' hlevels
      have hinner : levels ≤ more + levels := Nat.le_add_left levels more
      exact limits_targetValue hlevels (fun target => ih hinner target) target

end Targets

end InterfaceProbe.Reader
