/-
# Reading whole values against the grammar

`Reader.value` takes exactly the texts that denote a tree of at most the given
depth, and answers with that tree.  The induction is on the number of levels:
the members of a container are read with one level less, and the loops over
them are already known to do what their member readers do.
-/

import InterfaceProbe.Proofs.Json.Containers
import InterfaceProbe.Proofs.Json.StringLiteral

namespace InterfaceProbe

open Grammar

namespace Json

theorem itemsDepth_le_iff {items : List Json} {levels : Nat} :
    itemsDepth items ≤ levels ↔ ∀ item ∈ items, item.depth ≤ levels := by
  induction items with
  | nil => simp [itemsDepth]
  | cons item rest ih => simp only [itemsDepth, Nat.max_le, ih, List.forall_mem_cons]

theorem entriesDepth_le_iff {entries : List (String × Json)} {levels : Nat} :
    entriesDepth entries ≤ levels ↔ ∀ entry ∈ entries, entry.2.depth ≤ levels := by
  induction entries with
  | nil => simp [entriesDepth]
  | cons entry rest ih =>
      cases entry
      simp only [entriesDepth, Nat.max_le, ih, List.forall_mem_cons]

end Json

namespace Grammar

/-- An array denotes the trees that its items denote. -/
theorem ValueText.of_forall₂_items {text : Bytes} {texts : List Bytes} {items : List Json}
    (htext : ArrayText texts text) (hitems : List.Forall₂ ValueText texts items) :
    ValueText text (.array items) :=
  .array htext hitems.length_eq fun _ hitem => List.forall₂_zip hitems hitem

/-- An object denotes the entries that its entries denote. -/
theorem ValueText.of_forall₂_entries {text : Bytes} {texts : List (Bytes × Bytes)}
    {entries : List (String × Json)} (htext : ObjectText texts text)
    (hentries : List.Forall₂ (fun t e => StringText t.1 e.1 ∧ ValueText t.2 e.2) texts entries) :
    ValueText text (.object entries) :=
  .object htext hentries.length_eq (fun _ hentry => (List.forall₂_zip hentries hentry).1)
    fun _ hentry => (List.forall₂_zip hentries hentry).2

theorem valueText_array_iff {text : Bytes} {items : List Json} :
    ValueText text (.array items) ↔
      ∃ texts, ArrayText texts text ∧ List.Forall₂ ValueText texts items := by
  apply Iff.intro
  · intro h
    cases h with
    | array htext hlength hitems =>
        exact ⟨_, htext, List.forall₂_iff_zip.2 ⟨hlength, fun hitem => hitems _ hitem⟩⟩
  · intro h
    rcases h with ⟨texts, htext, hitems⟩
    exact .of_forall₂_items htext hitems

theorem valueText_object_iff {text : Bytes} {entries : List (String × Json)} :
    ValueText text (.object entries) ↔
      ∃ texts, ObjectText texts text ∧
        List.Forall₂ (fun t e => StringText t.1 e.1 ∧ ValueText t.2 e.2) texts entries := by
  apply Iff.intro
  · intro h
    cases h with
    | object htext hlength hkeys hvalues =>
        exact ⟨_, htext, List.forall₂_iff_zip.2
          ⟨hlength, fun hentry => ⟨hkeys _ hentry, hvalues _ hentry⟩⟩⟩
  · intro h
    rcases h with ⟨texts, htext, hentries⟩
    exact .of_forall₂_entries htext hentries

end Grammar

namespace Reader

section Scalars

theorem run_scalar_sound {b : UInt8} {tail rest : Bytes} {value : Json}
    (h : (scalar b).run (b :: tail) = .ok (value, rest)) :
    ∃ taken, (ValueText taken value ∧ value.depth = 0) ∧ b :: tail = taken ++ rest := by
  unfold scalar at h
  split at h
  · obtain ⟨_, middle, hword, hpure⟩ := run_bind_eq_ok.1 h
    cases hpure
    exact ⟨_, ⟨.null, rfl⟩, run_word_eq_ok.1 hword⟩
  split at h
  · obtain ⟨_, middle, hword, hpure⟩ := run_bind_eq_ok.1 h
    cases hpure
    exact ⟨_, ⟨.true, rfl⟩, run_word_eq_ok.1 hword⟩
  split at h
  · obtain ⟨_, middle, hword, hpure⟩ := run_bind_eq_ok.1 h
    cases hpure
    exact ⟨_, ⟨.false, rfl⟩, run_word_eq_ok.1 hword⟩
  split at h
  · obtain ⟨n, middle, hnumber, hpure⟩ := run_bind_eq_ok.1 h
    cases hpure
    obtain ⟨taken, htaken, htext⟩ := run_number_sound hnumber
    exact ⟨taken, ⟨htaken, rfl⟩, htext⟩
  split at h
  · next hquote =>
      subst hquote
      rw [run_bind_of_ok (run_skip_cons 34 tail)] at h
      obtain ⟨text, middle, hliteral, hpure⟩ := run_bind_eq_ok.1 h
      cases hpure
      obtain ⟨taken, htaken, htext⟩ := run_literal_sound hliteral
      exact ⟨taken, ⟨.string htaken, rfl⟩, htext⟩
  · cases h

theorem run_scalar_of_number {text rest : Bytes} {literal : NumberLiteral} {value : JsonNumber}
    (hnumber : NumberText text literal) (hvalue : literal.value = .ok value) (hrest : Ends rest) :
    ∃ b tail, text = b :: tail ∧ (b = 45 ∨ isDigit b = true) ∧
      (scalar b).run (b :: (tail ++ rest)) = .ok (.number value, rest) := by
  obtain ⟨b, tail, rfl, hb⟩ := exists_cons_of_numberText hnumber
  refine ⟨b, tail, rfl, hb, ?_⟩
  have hrun := run_number_of_literal hnumber hvalue hrest
  have hletter : b ≠ 110 ∧ b ≠ 116 ∧ b ≠ 102 := by
    refine ⟨?_, ?_, ?_⟩ <;> rintro rfl <;> simp [isDigit] at hb
  rw [scalar, if_neg hletter.1, if_neg hletter.2.1, if_neg hletter.2.2, if_pos hb]
  exact run_bind_of_ok hrun

/-- Every text of a value without members is read by its first byte. -/
theorem run_scalar_of_valueText {text rest : Bytes} {value : Json} (h : ValueText text value)
    (hdepth : value.depth = 0) (hrest : Ends rest) :
    ∃ b tail, text = b :: tail ∧ b ≠ 91 ∧ b ≠ 123 ∧
      (scalar b).run (b :: (tail ++ rest)) = .ok (value, rest) := by
  cases h with
  | null =>
      refine ⟨110, _, rfl, by decide, by decide, ?_⟩
      exact run_bind_of_ok (run_word_eq_ok.2 rfl)
  | true =>
      refine ⟨116, _, rfl, by decide, by decide, ?_⟩
      exact run_bind_of_ok (run_word_eq_ok.2 rfl)
  | false =>
      refine ⟨102, _, rfl, by decide, by decide, ?_⟩
      exact run_bind_of_ok (run_word_eq_ok.2 rfl)
  | integer hnumber hdenotes =>
      obtain ⟨b, tail, rfl, hb, hrun⟩ :=
        run_scalar_of_number hnumber (NumberLiteral.value_eq_integer_iff.2 hdenotes) hrest
      refine ⟨b, tail, rfl, ?_, ?_, hrun⟩ <;> rintro rfl <;> simp [isDigit] at hb
  | real hnumber hvalue =>
      obtain ⟨b, tail, rfl, hb, hrun⟩ := run_scalar_of_number hnumber hvalue hrest
      refine ⟨b, tail, rfl, ?_, ?_, hrun⟩ <;> rintro rfl <;> simp [isDigit] at hb
  | string hstring =>
      obtain ⟨tail, rfl, hrun⟩ := run_literal_of_stringText hstring rest
      refine ⟨34, tail, rfl, by decide, by decide, ?_⟩
      exact (run_bind_of_ok (run_skip_cons 34 _)).trans (run_bind_of_ok hrun)
  | array _ _ _ => cases hdepth
  | object _ _ _ _ => cases hdepth

end Scalars

section Entries

theorem run_colon_eq_ok_iff {text rest : Bytes} :
    colon.run text = .ok ((), rest) ↔ ∃ blank, Blank blank ∧ text = blank ++ 58 :: rest := by
  apply Iff.intro
  · intro h
    obtain ⟨b, middle, hpeek, hskip⟩ := run_bind_eq_ok.1 h
    obtain ⟨-, blank, tail, hblank, rfl, rfl⟩ := run_peek_eq_ok hpeek
    split at hskip
    · next hb =>
        cases hskip
        exact ⟨blank, hblank, by rw [hb]; rfl⟩
    · cases hskip
  · intro h
    rcases h with ⟨blank, hblank, rfl⟩
    exact run_bind_of_ok (run_peek_append hblank (by decide) _ rest)

/-- The reader takes a colon, white space around it, and then a text of the relation. -/
structure TakesBehindColon {α : Type} (reader : Reader α) (relation : Bytes → α → Prop) :
    Prop where
  sound : ∀ {text value rest}, reader.run text = .ok (value, rest) →
    ∃ before after taken, Blank before ∧ Blank after ∧ relation taken value ∧
      text = before ++ 58 :: (after ++ (taken ++ rest))
  complete : ∀ {before after taken value rest}, Blank before → Blank after →
    relation taken value → Ends rest →
    reader.run (before ++ 58 :: (after ++ (taken ++ rest))) = .ok (value, rest)

variable {α : Type}

theorem TakesBehindColon.of_takes {reader : Reader α} {relation : Bytes → α → Prop}
    (h : Takes Ends reader relation) : TakesBehindColon (do colon; reader) relation where
  sound hrun := by
    obtain ⟨_, middle, hcolon, hreader⟩ := run_bind_eq_ok.1 hrun
    obtain ⟨before, hbefore, rfl⟩ := run_colon_eq_ok_iff.1 hcolon
    obtain ⟨after, taken, hafter, htaken, rfl⟩ := h.sound hreader
    exact ⟨before, after, taken, hbefore, hafter, htaken, rfl⟩
  complete hbefore hafter htaken hrest := by
    rw [run_bind_of_ok (run_colon_eq_ok_iff.2 ⟨_, hbefore, rfl⟩)]
    exact h.complete hafter htaken hrest

/-- The relation between an entry and what it is read as, given that of each key's values. -/
def EntryReads {κ : Type} (relation : String → Bytes → κ → Prop) (entry : Bytes × Bytes)
    (value : κ) : Prop :=
  ∃ name, StringText entry.1 name ∧ relation name entry.2 value

/-- An entry is read by its key and by what its key says about its value. -/
theorem TakesEntry.of_key {next : String → Reader α} {relation : String → Bytes → α → Prop}
    (h : ∀ name, TakesBehindColon (next name) (relation name)) :
    TakesEntry (key >>= next)
      (fun text value => ∃ entry, EntryText entry text ∧ EntryReads relation entry value) where
  sound {blank tail value rest} hblank hrun := by
    obtain ⟨name, middle, hkey, hnext⟩ := run_bind_eq_ok.1 hrun
    rw [key, run_bind_of_ok (run_peek_append hblank (by decide) _ tail),
      run_bind_of_ok (run_skip_cons 34 tail)] at hkey
    obtain ⟨name', hname, htext⟩ := run_literal_sound hkey
    obtain ⟨before, after, taken, hbefore, hafter, htaken, rfl⟩ := (h name).sound hnext
    refine ⟨_, ⟨(name', taken), ⟨before, after, hbefore, hafter, rfl⟩, name, hname, htaken⟩, ?_⟩
    simp [htext]
  complete {blank taken value rest} hblank htaken hrest := by
    obtain ⟨⟨nameText, valueText⟩, ⟨before, after, hbefore, hafter, rfl⟩, name, hname, hvalue⟩ :=
      htaken
    have hnext := (h name).complete hbefore hafter hvalue hrest
    obtain ⟨tail, hquote, hliteral⟩ := run_literal_of_stringText hname
      (before ++ 58 :: (after ++ (valueText ++ rest)))
    refine run_bind_eq_ok.2 ⟨name, _, ?_, hnext⟩
    rw [show blank ++ (nameText ++ (before ++ 58 :: (after ++ valueText)) ++ rest) =
      blank ++ 34 :: (tail ++ (before ++ 58 :: (after ++ (valueText ++ rest)))) by
        simp only at hquote
        simp [hquote]]
    rw [key, run_bind_of_ok (run_peek_append hblank (by decide) _ _),
      run_bind_of_ok (run_skip_cons 34 _)]
    exact hliteral
  start htaken := by
    rcases htaken with ⟨entry, ⟨before, after, _, _, rfl⟩, name, ⟨inside, _, hname⟩, _⟩
    exact ⟨_, by rw [hname]; rfl⟩

/-- The entries of an object are read behind its brace exactly when they stand there and the
state runs along them, each entry read by its key. -/
theorem run_entries_of_key_iff {σ : Type} {next : σ → String → Reader σ}
    {relation : σ → String → Bytes → σ → Prop}
    (hnext : ∀ state name, TakesBehindColon (next state name) (relation state name))
    {state result : σ} {tail rest : Bytes} :
    (entries (fun state => key >>= next state) state).run tail = .ok (result, rest) ↔
      ∃ texts taken, ObjectText texts taken ∧
        Steps (fun state => EntryReads (relation state)) state texts result ∧
        123 :: tail = taken ++ rest := by
  rw [run_entries_eq_ok_iff fun state => TakesEntry.of_key (hnext state)]
  simp only [steps_exists_iff]
  apply Iff.intro
  · intro h
    rcases h with ⟨members, taken, hmembers, ⟨texts, htexts, hsteps⟩, rfl⟩
    exact ⟨texts, 123 :: taken, ⟨members, taken, htexts, hmembers, rfl⟩, hsteps, rfl⟩
  · intro h
    rcases h with ⟨texts, _, ⟨members, taken, htexts, hmembers, rfl⟩, hsteps, htext⟩
    exact ⟨members, taken, hmembers, ⟨texts, htexts, hsteps⟩, (List.cons.inj htext).2⟩

end Entries

section Values

theorem forall₂_and_right {α β : Type} {relation : α → β → Prop} {property : β → Prop}
    {first : List α} {second : List β} :
    List.Forall₂ (fun a b => relation a b ∧ property b) first second ↔
      List.Forall₂ relation first second ∧ ∀ b ∈ second, property b := by
  apply Iff.intro
  · intro h
    induction h with
    | nil => exact ⟨.nil, by simp⟩
    | cons hhead _ ih =>
        refine ⟨.cons hhead.1 ih.1, fun b hb => ?_⟩
        rcases List.mem_cons.1 hb with rfl | hb
        · exact hhead.2
        · exact ih.2 b hb
  · intro h
    rcases h with ⟨h, hproperty⟩
    induction h with
    | nil => exact .nil
    | cons hhead _ ih =>
        exact .cons ⟨hhead, hproperty _ List.mem_cons_self⟩
          (ih fun b hb => hproperty b (List.mem_cons_of_mem _ hb))

/-- The texts that denote a tree of at most the given depth. -/
def ValueWithin (levels : Nat) (text : Bytes) (value : Json) : Prop :=
  ValueText text value ∧ value.depth ≤ levels

theorem ValueWithin.start {levels : Nat} {text : Bytes} {value : Json}
    (h : ValueWithin levels text value) : ∃ b tail, text = b :: tail ∧ IsValueStart b :=
  h.1.wellFormed.start

/-- Items that denote trees within a level less make up an array within the levels. -/
theorem valueWithin_array_iff {levels : Nat} {text : Bytes} {items : List Json} :
    ValueWithin (levels + 1) text (.array items) ↔
      ∃ texts, ArrayText texts text ∧ List.Forall₂ (ValueWithin levels) texts items := by
  have hitems (texts : List Bytes) : List.Forall₂ (ValueWithin levels) texts items ↔
      List.Forall₂ ValueText texts items ∧ ∀ item ∈ items, item.depth ≤ levels :=
    forall₂_and_right
  simp only [hitems, ValueWithin, valueText_array_iff, Json.depth, Nat.add_le_add_iff_right,
    Json.itemsDepth_le_iff]
  apply Iff.intro
  · intro h
    rcases h with ⟨⟨texts, htext, hvalues⟩, hdepth⟩
    exact ⟨texts, htext, hvalues, hdepth⟩
  · intro h
    rcases h with ⟨texts, htext, hvalues, hdepth⟩
    exact ⟨⟨texts, htext, hvalues⟩, hdepth⟩

/-- The texts of an entry's key and of its value. -/
def EntryOf {α : Type} (relation : Bytes → α → Prop) (texts : Bytes × Bytes) (entry : String × α) :
    Prop :=
  StringText texts.1 entry.1 ∧ relation texts.2 entry.2

/-- The texts of an entry whose value is within the levels. -/
abbrev EntryWithin (levels : Nat) : Bytes × Bytes → String × Json → Prop :=
  EntryOf (ValueWithin levels)

theorem valueWithin_object_iff {levels : Nat} {text : Bytes} {entries : List (String × Json)} :
    ValueWithin (levels + 1) text (.object entries) ↔
      ∃ texts, ObjectText texts text ∧ List.Forall₂ (EntryWithin levels) texts entries := by
  have hentries (texts : List (Bytes × Bytes)) :
      List.Forall₂ (EntryWithin levels) texts entries ↔
        List.Forall₂ (fun t e => StringText t.1 e.1 ∧ ValueText t.2 e.2) texts entries ∧
          ∀ entry ∈ entries, entry.2.depth ≤ levels := by
    rw [← forall₂_and_right]
    simp only [and_assoc]
    rfl
  simp only [hentries, ValueWithin, valueText_object_iff, Json.depth, Nat.add_le_add_iff_right,
    Json.entriesDepth_le_iff]
  apply Iff.intro
  · intro h
    rcases h with ⟨⟨texts, htext, hvalues⟩, hdepth⟩
    exact ⟨texts, htext, hvalues, hdepth⟩
  · intro h
    rcases h with ⟨texts, htext, hvalues, hdepth⟩
    exact ⟨⟨texts, htext, hvalues⟩, hdepth⟩

/-- The items of an array, read one by one, are the trees that its items denote. -/
theorem run_items_collecting_iff {α : Type} {reader : Reader α} {relation : Bytes → α → Prop}
    (hreader : Takes Ends reader relation)
    (hstart : ∀ {text value}, relation text value → ∃ b tail, text = b :: tail ∧ IsValueStart b)
    {tail rest : Bytes} {collected : List α} :
    (items (fun collected => do return (← reader) :: collected) []).run tail =
        .ok (collected, rest) ↔
      ∃ texts taken, ArrayText texts taken ∧ List.Forall₂ relation texts collected.reverse ∧
        91 :: tail = taken ++ rest := by
  have hstep (collected : List α) : Takes Ends (do return (← reader) :: collected)
      (fun text => Collects relation collected text) := hreader.map (· :: collected)
  rw [run_items_eq_ok_iff hstep fun ⟨_, hitem, _⟩ => hstart hitem]
  simp only [steps_collects_iff, List.append_nil]
  apply Iff.intro
  · intro h
    rcases h with ⟨texts, taken, hmembers, ⟨values, hvalues, rfl⟩, rfl⟩
    rw [List.reverse_reverse]
    exact ⟨texts, 91 :: taken, ⟨taken, hmembers, rfl⟩, hvalues, rfl⟩
  · intro h
    rcases h with ⟨texts, _, ⟨taken, hmembers, rfl⟩, hvalues, htext⟩
    exact ⟨texts, taken, hmembers, ⟨_, hvalues, collected.reverse_reverse.symm⟩,
      (List.cons.inj htext).2⟩

/-- The items of an array are collected in reverse. -/
theorem run_items_of_arrayText {α : Type} {reader : Reader α} {relation : Bytes → α → Prop}
    (hreader : Takes Ends reader relation)
    (hstart : ∀ {text value}, relation text value → ∃ b tail, text = b :: tail ∧ IsValueStart b)
    {texts : List Bytes} {tail : Bytes} {values : List α} (htext : ArrayText texts (91 :: tail))
    (hvalues : List.Forall₂ relation texts values) (rest : Bytes) :
    (items (fun collected => do return (← reader) :: collected) []).run (tail ++ rest) =
      .ok (values.reverse, rest) := by
  refine (run_items_collecting_iff hreader hstart).2 ⟨texts, _, htext, ?_, rfl⟩
  rwa [List.reverse_reverse]

/-- The entries of an object, read one by one, are those that its entries denote. -/
theorem run_entries_collecting_iff {α : Type} {reader : Reader α} {relation : Bytes → α → Prop}
    (hreader : Takes Ends reader relation) {tail rest : Bytes} {collected : List (String × α)} :
    (entries (fun collected => do
        let name ← key
        colon
        return (name, ← reader) :: collected) []).run tail = .ok (collected, rest) ↔
      ∃ texts taken, ObjectText texts taken ∧
        List.Forall₂ (EntryOf relation) texts collected.reverse ∧ 123 :: tail = taken ++ rest := by
  have hnext (collected : List (String × α)) (name : String) :=
    TakesBehindColon.of_takes (hreader.map fun value => (name, value) :: collected)
  rw [run_entries_of_key_iff hnext]
  have hsteps : (fun collected => EntryReads fun name text collected' =>
      ∃ value, relation text value ∧ collected' = (name, value) :: collected) =
      Collects (EntryOf relation) := by
    funext collected texts collected'
    apply propext
    apply Iff.intro
    · intro h
      rcases h with ⟨name, hname, value, hvalue, rfl⟩
      exact ⟨(name, value), ⟨hname, hvalue⟩, rfl⟩
    · intro h
      rcases h with ⟨⟨name, value⟩, ⟨hname, hvalue⟩, rfl⟩
      exact ⟨name, hname, value, hvalue, rfl⟩
  simp only [hsteps, steps_collects_iff, List.append_nil]
  apply Iff.intro
  · intro h
    rcases h with ⟨texts, taken, htext, ⟨values, hvalues, rfl⟩, heq⟩
    rw [List.reverse_reverse]
    exact ⟨texts, taken, htext, hvalues, heq⟩
  · intro h
    rcases h with ⟨texts, taken, htext, hvalues, heq⟩
    exact ⟨texts, taken, htext, ⟨_, hvalues, collected.reverse_reverse.symm⟩, heq⟩

/-- The entries of an object are collected in reverse. -/
theorem run_entries_of_objectText {α : Type} {reader : Reader α} {relation : Bytes → α → Prop}
    (hreader : Takes Ends reader relation) {texts : List (Bytes × Bytes)} {tail : Bytes}
    {values : List (String × α)} (htext : ObjectText texts (123 :: tail))
    (hvalues : List.Forall₂ (EntryOf relation) texts values) (rest : Bytes) :
    (entries (fun collected => do
        let name ← key
        colon
        return (name, ← reader) :: collected) []).run (tail ++ rest) =
      .ok (values.reverse, rest) := by
  refine (run_entries_collecting_iff hreader).2 ⟨texts, _, htext, ?_, rfl⟩
  rwa [List.reverse_reverse]

/-- Where no array and no object may be open, a scalar is taken. -/
theorem value_zero_takes : Takes Ends (value 0) (ValueWithin 0) := by
  unfold value
  refine Takes.of_peek (fun _ h => ?_) fun htaken hrest => ?_
  · split at h
    · cases h
    split at h
    · cases h
    obtain ⟨taken, ⟨htaken, hdepth⟩, htext⟩ := run_scalar_sound h
    exact ⟨taken, ⟨htaken, Nat.le_of_eq hdepth⟩, htext⟩
  · obtain ⟨b, tail, rfl, hb⟩ := htaken.start
    obtain ⟨_, _, heq, harray, hobject, hrun⟩ :=
      run_scalar_of_valueText htaken.1 (Nat.le_zero.1 htaken.2) hrest
    cases heq
    refine ⟨b, tail, hb.ne.1, rfl, ?_⟩
    rw [if_neg harray, if_neg hobject]
    exact hrun

/-- With one more level arrays and objects are taken whose members are taken at the levels below. -/
theorem value_succ_takes {levels : Nat} (ih : Takes Ends (value levels) (ValueWithin levels)) :
    Takes Ends (value (levels + 1)) (ValueWithin (levels + 1)) := by
  unfold value
  refine Takes.of_peek (fun _ h => ?_) fun {taken value rest} htaken hrest => ?_
  · split at h
    · next hb =>
        subst hb
        rw [run_bind_of_ok (run_skip_cons 91 _)] at h
        obtain ⟨collected, middle, hitems, hpure⟩ := run_bind_eq_ok.1 h
        cases hpure
        obtain ⟨texts, taken, htext, hvalues, heq⟩ :=
          (run_items_collecting_iff ih ValueWithin.start).1 hitems
        exact ⟨taken, valueWithin_array_iff.2 ⟨texts, htext, hvalues⟩, heq⟩
    split at h
    · next hb =>
        subst hb
        rw [run_bind_of_ok (run_skip_cons 123 _)] at h
        obtain ⟨collected, middle, hentries, hpure⟩ := run_bind_eq_ok.1 h
        cases hpure
        obtain ⟨texts, taken, htext, hvalues, heq⟩ :=
          (run_entries_collecting_iff ih).1 hentries
        exact ⟨taken, valueWithin_object_iff.2 ⟨texts, htext, hvalues⟩, heq⟩
    obtain ⟨taken, ⟨htaken, hdepth⟩, htext⟩ := run_scalar_sound h
    exact ⟨taken, ⟨htaken, by omega⟩, htext⟩
  · obtain ⟨b, tail, rfl, hb⟩ := htaken.start
    refine ⟨b, tail, hb.ne.1, rfl, ?_⟩
    have hscalar (hdepth : value.depth = 0) := run_scalar_of_valueText htaken.1 hdepth hrest
    cases value with
    | array items =>
        obtain ⟨texts, htext, hvalues⟩ := valueWithin_array_iff.1 htaken
        obtain ⟨inside, hmembers, heq⟩ := id htext
        cases heq
        rw [if_pos rfl, run_bind_of_ok (run_skip_cons 91 _)]
        refine (run_bind_of_ok
          (run_items_of_arrayText ih ValueWithin.start htext hvalues rest)).trans ?_
        rw [List.reverse_reverse]
        rfl
    | object entries =>
        obtain ⟨texts, htext, hvalues⟩ := valueWithin_object_iff.1 htaken
        obtain ⟨_, inside, _, _, heq⟩ := id htext
        cases heq
        rw [if_neg (by decide), if_pos rfl, run_bind_of_ok (run_skip_cons 123 _)]
        refine (run_bind_of_ok (run_entries_of_objectText ih htext hvalues rest)).trans ?_
        rw [List.reverse_reverse]
        rfl
    | _ =>
        obtain ⟨_, _, heq, harray, hobject, hrun⟩ := hscalar rfl
        cases heq
        rw [if_neg harray, if_neg hobject]
        exact hrun

/-- A value is read exactly when it is within the levels. -/
theorem value_takes (levels : Nat) : Takes Ends (value levels) (ValueWithin levels) := by
  induction levels with
  | zero => exact value_zero_takes
  | succ levels ih => exact value_succ_takes ih

end Values

end Reader

end InterfaceProbe
