/-
# What readers answer

The theory of what readers take says which texts are read.  Here the answer to
one text is said outright, faults included: `RunsAs` ties a reader and a text
to the outcome of the run.  One fault is kept apart.  A reader may give up
because a text nests too deep, and where that happens first depends on how the
text is read; so the outcome holds unless the text is said to be deep.

A loop over members folds the outcomes of its steps, up to the first fault.
Only compact texts are looked at, without white space.
-/

import InterfaceProbe.Proofs.Wire.CompactForm

namespace InterfaceProbe

open Grammar Reader

namespace Reader

section Runs

variable {α β : Type} {deep : Prop} {outcome : Except Fault α} {rest : Bytes}

/-- A run has the outcome and leaves the rest, or it gives up at a value that nests too deep. -/
def Answers (deep : Prop) (outcome : Except Fault α) (rest : Bytes)
    (run : Except Fault (α × Bytes)) : Prop :=
  run = outcome.map (·, rest) ∨ deep ∧ run = .error (.malformed .tooDeep)

/-- The reader has the outcome on the text, before anything that ends a number. -/
def RunsAs (deep : Prop) (reader : Reader α) (text : Bytes) (outcome : Except Fault α) : Prop :=
  ∀ rest, Ends rest → Answers deep outcome rest (reader.run (text ++ rest))

theorem RunsAs.of_takes {reader : Reader α} {relation : Bytes → α → Prop}
    (h : Takes Ends reader relation) {text : Bytes} {value : α} (htext : relation text value) :
    RunsAs deep reader text (.ok value) :=
  fun _ hrest => .inl (h.complete Blank.nil htext hrest)

theorem Answers.mono {other : Prop} (himp : deep → other) {run : Except Fault (α × Bytes)}
    (h : Answers deep outcome rest run) : Answers other outcome rest run :=
  h.imp_right fun hdeep => ⟨himp hdeep.1, hdeep.2⟩

theorem RunsAs.mono {other : Prop} (himp : deep → other) {reader : Reader α} {text : Bytes}
    (h : RunsAs deep reader text outcome) : RunsAs other reader text outcome :=
  fun rest hrest => (h rest hrest).mono himp

/-- What goes on with an answer answers as it goes on with the outcome. -/
theorem Answers.andThen {run : Except Fault (α × Bytes)} {middle : Bytes}
    {next : α → Except Fault β} {continuation : α → Bytes → Except Fault (β × Bytes)} :
    Answers deep outcome middle run →
    (∀ a, outcome = .ok a → Answers deep (next a) rest (continuation a middle)) →
    Answers deep (outcome >>= next) rest
      (match run with
      | .error fault => .error fault
      | .ok (a, left) => continuation a left) := by
  intro h hnext
  rcases h with rfl | ⟨hdeep, rfl⟩
  · cases outcome with
    | error fault => exact .inl rfl
    | ok a => exact hnext a rfl
  · exact .inr ⟨hdeep, rfl⟩

theorem Answers.bind {first : Reader α} {next : α → Reader β} {text middle : Bytes}
    (h : Answers deep outcome middle (first.run text)) {outcomes : α → Except Fault β}
    (hnext : ∀ a, outcome = .ok a → Answers deep (outcomes a) rest ((next a).run middle)) :
    Answers deep (outcome >>= outcomes) rest ((first >>= next).run text) := by
  rw [run_bind]
  exact h.andThen hnext

theorem answers_ofExcept (outcome : Except Fault α) (rest : Bytes) :
    Answers deep outcome rest ((ofExcept outcome).run rest) := by
  cases outcome <;> exact .inl rfl

/-- What is made of what was read. -/
theorem Answers.map {reader : Reader α} {text : Bytes}
    (h : Answers deep outcome rest (reader.run text)) (f : α → β) :
    Answers deep (f <$> outcome) rest ((do return f (← reader)).run text) := by
  have hmap : f <$> outcome = (do return f (← outcome)) := by
    cases outcome <;> rfl
  rw [hmap]
  exact h.bind fun a _ => .inl rfl

/-- An array or object is entered unless no further one may be open. -/
theorem answers_enter (levels : Nat) (b : UInt8) {inside : Reader α} {text : Bytes}
    (hdeep : levels = 0 → deep) (h : 0 < levels → Answers deep outcome rest (inside.run text)) :
    Answers deep outcome rest ((enter levels inside).run (b :: text)) := by
  unfold enter
  split
  · next hlevels => exact .inr ⟨hdeep hlevels, rfl⟩
  · next hlevels =>
      rw [run_bind_of_ok (run_skip_cons b text)]
      exact h (Nat.pos_of_ne_zero hlevels)

end Runs

section Loops

variable {σ τ : Type} {deep : Prop} {step : σ → Reader σ} {text : τ → Bytes}
  {outcome : σ → τ → Except Fault σ} {members : List τ} {close : UInt8}

/-- The texts with a comma before each, and the closing byte. -/
def behind (close : UInt8) (texts : List Bytes) : Bytes :=
  texts.flatMap (fun text => 44 :: text) ++ [close]

theorem intercalate_eq_behind (close : UInt8) (first : Bytes) (texts : List Bytes) :
    [44].intercalate (first :: texts) ++ [close] = first ++ behind close texts := by
  induction texts generalizing first with
  | nil => simp [behind]
  | cons next texts ih =>
      rw [List.intercalate_cons_cons, List.append_assoc, List.append_assoc, ih]
      simp [behind]

theorem ends_behind (hclose : close = 93 ∨ close = 125) (texts : List Bytes) (rest : Bytes) :
    Ends (behind close texts ++ rest) := by
  cases texts with
  | nil => exact ends_blank_cons Blank.nil (.inr (.inr hclose)) _
  | cons text texts => exact ends_blank_cons Blank.nil (.inl rfl) _

/-- The items behind the first are gone through one by one. -/
theorem answers_itemsFrom
    (hstart : ∀ member ∈ members, ∃ b tail, text member = b :: tail ∧ IsValueStart b)
    (hstep : ∀ member ∈ members, ∀ state,
      RunsAs deep (step state) (text member) (outcome state member))
    (state : σ) (rest : Bytes) :
    Answers deep (members.foldlM outcome state) rest
      (itemsFrom step state (behind 93 (members.map text) ++ rest)) := by
  induction members generalizing state with
  | nil => exact .inl (itemsFrom_of_bracket (skipBlank_cons (by decide) rest))
  | cons member members ih =>
      obtain ⟨hfirst, hstart⟩ := List.forall_mem_cons.1 hstart
      obtain ⟨hmember, hstep⟩ := List.forall_mem_cons.1 hstep
      have hrun := hmember state _ (ends_behind (.inl rfl) (members.map text) rest)
      obtain ⟨b, tail, heq, hb⟩ := hfirst
      have htext : behind 93 ((member :: members).map text) ++ rest =
          44 :: (text member ++ (behind 93 (members.map text) ++ rest)) := by
        simp [behind]
      rw [htext, List.foldlM_cons, itemsFrom_eq_of_comma (skipBlank_cons (by decide) _)
        (by rw [heq, List.cons_append, skipBlank_cons hb.ne.1]; rfl) hb.ne.2.2.2.1]
      exact hrun.andThen fun state' _ => ih hstart hstep state'

/-- The items of an array are gone through one by one. -/
theorem answers_items
    (hstart : ∀ member ∈ members, ∃ b tail, text member = b :: tail ∧ IsValueStart b)
    (hstep : ∀ member ∈ members, ∀ state,
      RunsAs deep (step state) (text member) (outcome state member))
    (state : σ) (rest : Bytes) :
    Answers deep (members.foldlM outcome state) rest
      ((items step state).run ([44].intercalate (members.map text) ++ [93] ++ rest)) := by
  cases members with
  | nil => exact .inl rfl
  | cons member members =>
      obtain ⟨⟨b, tail, heq, hb⟩, hstart⟩ := List.forall_mem_cons.1 hstart
      obtain ⟨hmember, hstep⟩ := List.forall_mem_cons.1 hstep
      have hrun := hmember state _ (ends_behind (.inl rfl) (members.map text) rest)
      rw [List.map_cons, intercalate_eq_behind, List.append_assoc, List.foldlM_cons]
      rw [heq, List.cons_append] at hrun ⊢
      simp only [items, skipBlank_cons hb.ne.1, if_neg hb.ne.2.2.2.1]
      exact hrun.andThen fun state' _ => answers_itemsFrom hstart hstep state' rest

/-- The entries behind the first are gone through one by one. -/
theorem answers_entriesFrom (hstart : ∀ member ∈ members, ∃ tail, text member = 34 :: tail)
    (hstep : ∀ member ∈ members, ∀ state,
      RunsAs deep (step state) (text member) (outcome state member))
    (state : σ) (rest : Bytes) :
    Answers deep (members.foldlM outcome state) rest
      (entriesFrom step state (behind 125 (members.map text) ++ rest)) := by
  induction members generalizing state with
  | nil => exact .inl (entriesFrom_of_brace (skipBlank_cons (by decide) rest))
  | cons member members ih =>
      obtain ⟨hfirst, hstart⟩ := List.forall_mem_cons.1 hstart
      obtain ⟨hmember, hstep⟩ := List.forall_mem_cons.1 hstep
      have hrun := hmember state _ (ends_behind (.inr rfl) (members.map text) rest)
      obtain ⟨tail, heq⟩ := hfirst
      have htext : behind 125 ((member :: members).map text) ++ rest =
          44 :: (text member ++ (behind 125 (members.map text) ++ rest)) := by
        simp [behind]
      rw [htext, List.foldlM_cons, entriesFrom_eq_of_comma (skipBlank_cons (by decide) _)
        (by rw [heq, List.cons_append, skipBlank_cons (by decide)]; rfl)]
      exact hrun.andThen fun state' _ => ih hstart hstep state'

/-- The entries of an object are gone through one by one. -/
theorem answers_entries (hstart : ∀ member ∈ members, ∃ tail, text member = 34 :: tail)
    (hstep : ∀ member ∈ members, ∀ state,
      RunsAs deep (step state) (text member) (outcome state member))
    (state : σ) (rest : Bytes) :
    Answers deep (members.foldlM outcome state) rest
      ((entries step state).run ([44].intercalate (members.map text) ++ [125] ++ rest)) := by
  cases members with
  | nil => exact .inl rfl
  | cons member members =>
      obtain ⟨⟨tail, heq⟩, hstart⟩ := List.forall_mem_cons.1 hstart
      obtain ⟨hmember, hstep⟩ := List.forall_mem_cons.1 hstep
      have hrun := hmember state _ (ends_behind (.inr rfl) (members.map text) rest)
      rw [List.map_cons, intercalate_eq_behind, List.append_assoc, List.foldlM_cons]
      rw [heq, List.cons_append] at hrun ⊢
      simp only [entries, skipBlank_cons (show isBlank 34 = false by decide),
        show (34 : UInt8) ≠ 125 by decide, if_false, if_true]
      exact hrun.andThen fun state' _ => answers_entriesFrom hstart hstep state' rest

end Loops

section Keys

variable {α : Type} {deep : Prop} {outcome : Except Fault α} {name : String} {text rest : Bytes}

theorem run_peek_cons {b : UInt8} (hb : isBlank b = false) (atEnd : Malformed) (text : Bytes) :
    (peek atEnd).run (b :: text) = .ok (b, b :: text) :=
  run_peek_append Blank.nil hb atEnd text

theorem run_key_quoted (name : String) (rest : Bytes) :
    key.run (utf8 (quoted name) ++ rest) = .ok (name, rest) := by
  obtain ⟨tail, heq, hliteral⟩ := run_literal_of_stringText (stringText_quoted name) rest
  rw [heq, List.cons_append, key, run_bind_of_ok (run_peek_cons (by decide) _ _),
    run_bind_of_ok (run_skip_cons 34 _)]
  exact hliteral

theorem run_colon_cons (text : Bytes) : colon.run (58 :: text) = .ok ((), text) :=
  run_colon_eq_ok_iff.2 ⟨[], Blank.nil, rfl⟩

/-- The text of an entry of an object. -/
def entryText (name : String) (text : Bytes) : Bytes := utf8 (quoted name) ++ 58 :: text

theorem exists_cons_of_entryText (name : String) (text : Bytes) :
    ∃ tail, entryText name text = 34 :: tail := by
  obtain ⟨inside, -, heq⟩ := stringText_quoted name
  exact ⟨_, by rw [entryText, heq]; rfl⟩

/-- An entry is read by its key and by what its key says about its value. -/
theorem runsAs_entry {next : String → Reader α}
    (h : ∀ rest, Ends rest → Answers deep outcome rest ((next name).run (58 :: (text ++ rest)))) :
    RunsAs deep (key >>= next) (entryText name text) outcome := by
  intro rest hrest
  rw [entryText, List.append_assoc, run_bind_of_ok (run_key_quoted name _)]
  exact h rest hrest

end Keys

end Reader

section Values

theorem Plain.start {tree : Json} (h : Plain tree) :
    ∃ b tail, utf8 tree.compact = b :: tail ∧ IsValueStart b :=
  h.valueText.wellFormed.start

theorem foldlM_collect {τ : Type} (members collected : List τ) :
    members.foldlM (fun collected member => (.ok (member :: collected) : Except Fault (List τ)))
      collected = .ok (members.reverse ++ collected) := by
  induction members generalizing collected with
  | nil => rfl
  | cons member members ih =>
      rw [List.foldlM_cons]
      apply (ih (member :: collected)).trans
      simp

theorem utf8_compact_array (items : List Json) :
    utf8 (Json.array items).compact =
      91 :: ([44].intercalate (items.map fun item => utf8 item.compact) ++ [93]) := by
  rw [compact_array, utf8_bracketedTexts, List.map_map]
  rfl

theorem utf8_compact_object (entries : List (String × Json)) :
    utf8 (Json.object entries).compact =
      123 :: ([44].intercalate
        (entries.map fun entry => entryText entry.1 (utf8 entry.2.compact)) ++ [125]) := by
  rw [compact_object, utf8_bracedTexts, List.map_map, braced, List.map_map]
  rfl

/-- A plain value is read as itself. -/
theorem Plain.value_runsAs {tree : Json} (h : Plain tree) (levels : Nat) :
    RunsAs (levels < tree.depth) (value levels) (utf8 tree.compact) (.ok tree) := by
  induction h generalizing levels with
  | string text =>
      exact .of_takes (value_takes levels) ⟨(Plain.string text).valueText, Nat.zero_le levels⟩
  | int hlow hhigh =>
      exact .of_takes (value_takes levels) ⟨(Plain.int hlow hhigh).valueText, Nat.zero_le levels⟩
  | @array items hplain ih =>
      intro rest _
      rw [utf8_compact_array]
      cases levels with
      | zero => exact .inr ⟨Nat.succ_pos _, rfl⟩
      | succ levels =>
          have hitem (item : Json) (hitem : item ∈ items) (collected : List Json) :
              RunsAs (levels + 1 < (Json.array items).depth)
                (do return (← value levels) :: collected) (utf8 item.compact)
                (.ok (item :: collected)) := fun rest hrest =>
            ((ih item hitem levels rest hrest).map (· :: collected)).mono fun hdeep =>
              Nat.lt_of_le_of_lt hdeep (depth_lt_of_mem_items hitem)
          have hitems := answers_items (fun item hitem => (hplain item hitem).start) hitem [] rest
          rw [foldlM_collect, List.append_nil] at hitems
          have hread := hitems.map fun collected => Json.array collected.reverse
          unfold value
          rw [List.cons_append, run_bind_of_ok (run_peek_cons (by decide) _ _), if_pos rfl,
            run_bind_of_ok (run_skip_cons 91 _)]
          simpa [Functor.map, Except.map] using hread
  | @object entries hplain ih =>
      intro rest _
      rw [utf8_compact_object]
      cases levels with
      | zero => exact .inr ⟨Nat.succ_pos _, rfl⟩
      | succ levels =>
          have hentry (entry : String × Json) (hentry : entry ∈ entries)
              (collected : List (String × Json)) :
              RunsAs (levels + 1 < (Json.object entries).depth)
                (key >>= fun name => do
                  colon
                  return (name, ← value levels) :: collected)
                (entryText entry.1 (utf8 entry.2.compact)) (.ok (entry :: collected)) := by
            refine runsAs_entry fun rest hrest => ?_
            rw [run_bind_of_ok (run_colon_cons _)]
            exact ((ih entry hentry levels rest hrest).map fun tree =>
              (entry.1, tree) :: collected).mono fun hdeep =>
                Nat.lt_of_le_of_lt hdeep (depth_lt_of_mem_entries hentry)
          have hentries := answers_entries
            (fun entry _ => exists_cons_of_entryText entry.1 _) hentry [] rest
          rw [foldlM_collect, List.append_nil] at hentries
          have hread := hentries.map fun collected => Json.object collected.reverse
          unfold value
          rw [List.cons_append, run_bind_of_ok (run_peek_cons (by decide) _ _),
            if_neg (by decide), if_pos rfl, run_bind_of_ok (run_skip_cons 123 _)]
          simpa [Functor.map, Except.map] using hread

end Values

end InterfaceProbe
