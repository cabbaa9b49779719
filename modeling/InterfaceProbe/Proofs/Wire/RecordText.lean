/-
# Reading records from a text

The readers of records, against the description of records by the values at
their keys.  `slotItems` and `slotEntry` are tied to runs that fill a draft;
what a filled draft builds is settled for trees and texts alike, so nothing
here looks at a particular record.
-/

import InterfaceProbe.Proofs.Wire.TreeReading

namespace InterfaceProbe.Reader

open Grammar

theorem Takes.functional {α : Type} {follow : Bytes → Prop} {reader : Reader α}
    {relation : Bytes → α → Prop} (h : Takes follow reader relation) (hempty : follow [])
    {text : Bytes} {value other : α} (hvalue : relation text value) (hother : relation text other) :
    value = other := by
  have hrun := h.complete Blank.nil hvalue hempty
  cases hrun.symm.trans (h.complete Blank.nil hother hempty)
  rfl

theorem ends_nil : Ends [] := by
  intro b hb
  cases hb

/-- A mismatch is no value. -/
theorem run_mismatch_ne_ok {α : Type} {b : UInt8} {expected : String} {text rest : Bytes}
    {value : α} : (mismatch b expected : Reader α).run text ≠ .ok (value, rest) := by
  intro h
  unfold mismatch at h
  split at h
  · cases h
  split at h
  · cases h
  · obtain ⟨found, middle, -, hfail⟩ := run_bind_eq_ok.1 h
    cases hfail

/-- Only an array or object within the levels is entered. -/
theorem run_enter_eq_ok_iff {α : Type} {levels : Nat} {inside : Reader α} {b : UInt8}
    {tail rest : Bytes} {value : α} :
    (enter levels inside).run (b :: tail) = .ok (value, rest) ↔
      0 < levels ∧ inside.run tail = .ok (value, rest) := by
  unfold enter
  by_cases hlevels : levels = 0
  · rw [if_pos hlevels]
    simp [hlevels]
  · rw [if_neg hlevels, run_bind_of_ok (run_skip_cons b tail)]
    simp [Nat.pos_of_ne_zero hlevels]

section Items

theorem run_lastBracket_eq_ok_iff {text rest : Bytes} :
    lastBracket.run text = .ok ((), rest) ↔ ∃ blank, Blank blank ∧ text = blank ++ 93 :: rest := by
  apply Iff.intro
  · intro hrun
    obtain ⟨b, middle, hpeek, h⟩ := run_bind_eq_ok.1 hrun
    obtain ⟨-, blank, tail, hblank, rfl, rfl⟩ := run_peek_eq_ok hpeek
    split at h
    · next hb =>
        cases h
        exact ⟨blank, hblank, by rw [hb]; rfl⟩
    split at h
    · rw [run_bind_of_ok (run_skip_cons b tail)] at h
      obtain ⟨c, middle, -, h⟩ := run_bind_eq_ok.1 h
      split at h <;> cases h
    · cases h
  · intro h
    rcases h with ⟨blank, hblank, rfl⟩
    exact run_bind_of_ok (run_peek_append hblank (by decide) _ rest)

theorem run_anotherItem_eq_false_iff {isFirst : Bool} {text rest : Bytes} :
    (anotherItem isFirst).run text = .ok (false, rest) ↔
      ∃ blank tail, Blank blank ∧ rest = 93 :: tail ∧ text = blank ++ 93 :: tail := by
  apply Iff.intro
  · intro hrun
    obtain ⟨b, middle, hpeek, h⟩ := run_bind_eq_ok.1 hrun
    obtain ⟨-, blank, tail, hblank, rfl, rfl⟩ := run_peek_eq_ok hpeek
    split at h
    · next hb =>
        cases h
        exact ⟨blank, tail, hblank, by rw [hb], by rw [hb]⟩
    split at h
    · cases h
    split at h
    · rw [run_bind_of_ok (run_skip_cons b tail)] at h
      obtain ⟨c, middle, -, h⟩ := run_bind_eq_ok.1 h
      split at h <;> cases h
    · cases h
  · intro h
    rcases h with ⟨blank, tail, hblank, rfl, rfl⟩
    exact run_bind_of_ok (run_peek_append hblank (by decide) _ tail)

theorem run_anotherItem_first_iff {text rest : Bytes} :
    (anotherItem true).run text = .ok (true, rest) ↔
      ∃ blank b tail, Blank blank ∧ isBlank b = false ∧ b ≠ 93 ∧ rest = b :: tail ∧
        text = blank ++ b :: tail := by
  apply Iff.intro
  · intro hrun
    obtain ⟨b, middle, hpeek, h⟩ := run_bind_eq_ok.1 hrun
    obtain ⟨hb, blank, tail, hblank, rfl, rfl⟩ := run_peek_eq_ok hpeek
    split at h
    · cases h
    · next hne =>
        cases h
        exact ⟨blank, b, tail, hblank, hb, hne, rfl, rfl⟩
  · intro h
    rcases h with ⟨blank, b, tail, hblank, hb, hne, rfl, rfl⟩
    rw [anotherItem, run_bind_of_ok (run_peek_append hblank hb _ tail), if_neg hne]
    rfl

theorem run_anotherItem_next_iff {text rest : Bytes} :
    (anotherItem false).run text = .ok (true, rest) ↔
      ∃ before after b tail, Blank before ∧ Blank after ∧ isBlank b = false ∧ b ≠ 93 ∧
        rest = b :: tail ∧ text = before ++ 44 :: (after ++ b :: tail) := by
  apply Iff.intro
  · intro hrun
    obtain ⟨b, middle, hpeek, h⟩ := run_bind_eq_ok.1 hrun
    obtain ⟨-, before, tail, hbefore, rfl, rfl⟩ := run_peek_eq_ok hpeek
    split at h
    · cases h
    · simp only [Bool.false_eq_true, if_false] at h
      split at h
      · next hcomma =>
          rw [run_bind_of_ok (run_skip_cons b tail)] at h
          obtain ⟨c, middle, hpeek, hlast⟩ := run_bind_eq_ok.1 h
          obtain ⟨hc, after, tail', hafter, rfl, rfl⟩ := run_peek_eq_ok hpeek
          split at hlast
          · cases hlast
          · next hne =>
              cases hlast
              exact ⟨before, after, c, tail', hbefore, hafter, hc, hne, rfl, by rw [hcomma]⟩
      · cases h
  · intro h
    rcases h with ⟨before, after, b, tail, hbefore, hafter, hb, hne, rfl, rfl⟩
    rw [anotherItem, run_bind_of_ok (run_peek_append hbefore (by decide) _ _), if_neg (by decide)]
    simp only [Bool.false_eq_true, if_false, if_true]
    rw [run_bind_of_ok (run_skip_cons 44 _), run_bind_of_ok (run_peek_append hafter hb _ tail),
      if_neg hne]
    rfl

/-- What may follow in an array before its first item, or behind one. -/
def Behind (isFirst : Bool) (items : List Bytes) (text : Bytes) : Prop :=
  if isFirst then Members 93 items text else Further 93 items text

theorem behind_nil_iff {isFirst : Bool} {text : Bytes} :
    Behind isFirst [] text ↔ ∃ blank, Blank blank ∧ text = blank ++ [93] := by
  unfold Behind
  apply Iff.intro
  · intro h
    split at h
    · cases h with
      | none hblank => exact ⟨_, hblank, rfl⟩
    · cases h with
      | close hblank => exact ⟨_, hblank, rfl⟩
  · intro h
    rcases h with ⟨blank, hblank, rfl⟩
    split
    · exact .none hblank
    · exact .close hblank

/-- An item that is read where another one is found stands behind what was read before. -/
theorem exists_behind_of_anotherItem {isFirst : Bool} {text blank item taken rest : Bytes}
    {items : List Bytes}
    (hmore : (anotherItem isFirst).run text = .ok (true, blank ++ (item ++ (taken ++ rest))))
    (hblank : Blank blank) (hfurther : Further 93 items taken) :
    ∃ taken', Behind isFirst (item :: items) taken' ∧ text = taken' ++ rest := by
  cases isFirst with
  | true =>
      obtain ⟨before, b, tail, hbefore, -, -, htail, rfl⟩ := run_anotherItem_first_iff.1 hmore
      exact ⟨_, .some (hbefore.append hblank) hfurther, by simp [← htail]⟩
  | false =>
      obtain ⟨before, after, b, tail, hbefore, hafter, -, -, htail, rfl⟩ :=
        run_anotherItem_next_iff.1 hmore
      exact ⟨_, .comma hbefore (hafter.append hblank) hfurther, by simp [← htail]⟩

/-- Another item is found where one stands. -/
theorem exists_further_of_behind {isFirst : Bool} {b : UInt8} {tail taken : Bytes}
    {items : List Bytes} (hbehind : Behind isFirst ((b :: tail) :: items) taken)
    (hb : IsValueStart b) (rest : Bytes) :
    ∃ further, Further 93 items further ∧
      (anotherItem isFirst).run (taken ++ rest) =
        .ok (true, b :: (tail ++ (further ++ rest))) := by
  unfold Behind at hbehind
  cases isFirst with
  | true =>
      rw [if_pos rfl] at hbehind
      cases hbehind with
      | @some blank _ further _ hblank hfurther =>
          refine ⟨further, hfurther, run_anotherItem_first_iff.2 ?_⟩
          exact ⟨blank, b, _, hblank, hb.ne.1, hb.ne.2.2.2.1, rfl, by simp⟩
  | false =>
      rw [if_neg (by decide)] at hbehind
      cases hbehind with
      | @comma before after _ further _ hbefore hafter hfurther =>
          refine ⟨further, hfurther, run_anotherItem_next_iff.2 ?_⟩
          exact ⟨before, after, b, _, hbefore, hafter, hb.ne.1, hb.ne.2.2.2.1, rfl, by simp⟩

variable {α : Type} {record : Record α} {read : (slot : Slot) → Reader slot.Value}
  {means : Bytes → Meaning}

section

variable (hread : ∀ slot, Takes Ends (read slot) fun text value => means text slot.target value)
  (hstart : ∀ {text target value}, means text target value →
    ∃ b tail, text = b :: tail ∧ IsValueStart b)

include hread

theorem slotItems_sound {slots : List Slot} {index : Nat} {draft draft' : Draft}
    {text rest : Bytes}
    (h : (slotItems record read index slots draft).run text = .ok (draft', rest)) :
    ∃ items taken, Behind (index == 0) items taken ∧ items.length ≤ slots.length ∧
      (∀ slot ∈ slots.drop items.length, slot.default? ≠ none) ∧
      Steps (Sets means) draft (slots.zip items) draft' ∧ text = taken ++ rest := by
  induction slots generalizing index draft text with
  | nil =>
      obtain ⟨_, middle, hlast, h⟩ := run_bind_eq_ok.1 h
      cases h
      obtain ⟨blank, hblank, rfl⟩ := run_lastBracket_eq_ok_iff.1 hlast
      exact ⟨[], blank ++ [93], behind_nil_iff.2 ⟨blank, hblank, rfl⟩, Nat.le_refl _, by simp, .nil,
        by simp⟩
  | cons slot slots ih =>
      obtain ⟨more, middle, hmore, hnext⟩ := run_bind_eq_ok.1 h
      cases more with
      | false =>
          obtain ⟨blank, tail, hblank, rfl, rfl⟩ := run_anotherItem_eq_false_iff.1 hmore
          simp only [Bool.false_eq_true, if_false] at hnext
          split at hnext
          · cases hnext
          · next hrequired =>
              cases hnext
              exact ⟨[], blank ++ [93], behind_nil_iff.2 ⟨blank, hblank, rfl⟩, Nat.zero_le _,
                firstRequired_eq_none_iff.1 hrequired, .nil, by simp⟩
      | true =>
          obtain ⟨value, rest', hvalue, hrest⟩ := run_bind_eq_ok.1 hnext
          obtain ⟨blank, item, hblank, hitem, rfl⟩ := (hread slot).sound hvalue
          obtain ⟨items, taken, hbehind, hlength, hrequired, hsteps, rfl⟩ := ih hrest
          refine ⟨item :: items, ?_⟩
          obtain ⟨taken', hbehind', htext⟩ :=
            exists_behind_of_anotherItem hmore hblank (show Further 93 items taken from hbehind)
          exact ⟨taken', hbehind', Nat.succ_le_succ hlength, hrequired,
            .cons ⟨value, hitem, rfl⟩ hsteps, htext⟩

include hstart

theorem run_slotItems_of_behind {slots : List Slot} {index : Nat} {draft draft' : Draft}
    {items : List Bytes} {taken : Bytes} (hbehind : Behind (index == 0) items taken)
    (hlength : items.length ≤ slots.length)
    (hrequired : ∀ slot ∈ slots.drop items.length, slot.default? ≠ none)
    (hsteps : Steps (Sets means) draft (slots.zip items) draft') (rest : Bytes) :
    (slotItems record read index slots draft).run (taken ++ rest) = .ok (draft', rest) := by
  induction slots generalizing index draft items taken with
  | nil =>
      have hnil : items = [] := List.length_eq_zero_iff.1 (Nat.le_zero.1 hlength)
      subst hnil
      cases hsteps
      obtain ⟨blank, hblank, rfl⟩ := behind_nil_iff.1 hbehind
      rw [List.append_assoc]
      exact run_bind_of_ok (run_lastBracket_eq_ok_iff.2 ⟨blank, hblank, rfl⟩)
  | cons slot slots ih =>
      cases items with
      | nil =>
          cases hsteps
          obtain ⟨blank, hblank, rfl⟩ := behind_nil_iff.1 hbehind
          have hmore : (anotherItem (index == 0)).run (blank ++ ([93] ++ rest)) =
              .ok (false, 93 :: rest) :=
            run_anotherItem_eq_false_iff.2 ⟨blank, rest, hblank, rfl, rfl⟩
          rw [slotItems, List.append_assoc, run_bind_of_ok hmore]
          simp only [Bool.false_eq_true, if_false]
          have hnone : firstRequired index (slot :: slots) = none :=
            firstRequired_eq_none_iff.2 hrequired
          rw [hnone]
          rfl
      | cons item items =>
          cases hsteps with
          | cons hstep hsteps =>
              rcases hstep with ⟨value, hitem, rfl⟩
              obtain ⟨b, tail, rfl, hb⟩ := hstart hitem
              obtain ⟨further, hfurther, hmore⟩ := exists_further_of_behind hbehind hb rest
              have hvalue := (hread slot).complete Blank.nil hitem
                (ends_of_further (.inl rfl) hfurther rest)
              rw [slotItems, run_bind_of_ok hmore]
              refine (run_bind_of_ok hvalue).trans ?_
              exact ih hfurther (Nat.le_of_succ_le_succ hlength) hrequired hsteps

/-- The items of a record are read behind its bracket exactly when they fill its slots in order. -/
theorem run_slotItems_eq_ok_iff {draft : Draft} {tail rest : Bytes} :
    (slotItems record read 0 record.slots Draft.empty).run tail = .ok (draft, rest) ↔
      ∃ items taken, ArrayText items taken ∧ items.length ≤ record.slots.length ∧
        firstRequired items.length (record.slots.drop items.length) = none ∧
        Steps (Sets means) Draft.empty (record.slots.zip items) draft ∧
        91 :: tail = taken ++ rest := by
  apply Iff.intro
  · intro h
    obtain ⟨items, taken, hbehind, hlength, hrequired, hsteps, rfl⟩ := slotItems_sound hread h
    exact ⟨items, _, ⟨taken, hbehind, rfl⟩, hlength, firstRequired_eq_none_iff.2 hrequired, hsteps,
      rfl⟩
  · intro h
    rcases h with ⟨items, _, ⟨taken, hmembers, rfl⟩, hlength, hrequired, hsteps, htext⟩
    have hbehind : Behind (0 == 0) items taken := hmembers
    rw [(List.cons.inj htext).2]
    exact run_slotItems_of_behind hread hstart hbehind hlength
      (firstRequired_eq_none_iff.1 hrequired) hsteps rest

end

end Items

section Entries

variable {α : Type} {record : Record α} {read : (slot : Slot) → Reader slot.Value}
  {means : Bytes → Meaning}

theorem slotFor_eq_ok_none_iff {draft : Draft} {name : String} :
    record.slotFor draft name = .ok none ↔ record.slot? name = none := by
  unfold Record.slotFor
  cases record.slot? name with
  | none => simp
  | some slot => by_cases h : (draft slot).isSome <;> simp [h]

theorem slotFor_eq_ok_some_iff {draft : Draft} {name : String} {slot : Slot} :
    record.slotFor draft name = .ok (some slot) ↔
      record.slot? name = some slot ∧ draft slot = none := by
  unfold Record.slotFor
  cases record.slot? name with
  | none => simp
  | some found =>
      by_cases h : (draft found).isSome
      · simp only [h, if_true, reduceCtorEq, false_iff, Option.some.injEq, not_and]
        rintro rfl hempty
        rw [hempty] at h
        cases h
      · simp only [h, Option.some.injEq]
        apply Iff.intro
        · intro h
          rcases h with ⟨⟩
          exact ⟨rfl, by simpa using h⟩
        · intro h
          rcases h with ⟨rfl, -⟩
          rfl

/-- What is left of an entry behind its key. -/
def slotContent (record : Record α) (read : (slot : Slot) → Reader slot.Value) (draft : Draft)
    (name : String) : Reader Draft := do
  let slot ← ofExcept (record.slotFor draft name)
  colon
  match slot with
  | none =>
    skipValue
    return draft
  | some slot =>
    let value ← read slot
    return draft.set slot value

theorem slotContent_takes
    (hread : ∀ slot, Takes Ends (read slot) fun text value => means text slot.target value)
    (draft : Draft) (name : String) :
    TakesBehindColon (slotContent record read draft name) fun text draft' =>
      Fills record WellFormed means draft (name, text) draft' := by
  cases hslot : record.slotFor draft name with
  | error fault =>
      have hfails (text : Bytes) :
          (slotContent record read draft name).run text = .error fault := by
        rw [slotContent, run_bind, hslot]
        rfl
      refine ⟨fun h => ?_, fun {_ _ _ _ _} _ _ hfills _ => ?_⟩
      · rw [hfails] at h
        cases h
      · rcases hfills with ⟨hnone, -⟩ | ⟨slot, hsome, hempty, -⟩
        · cases hslot.symm.trans (slotFor_eq_ok_none_iff.2 hnone)
        · cases hslot.symm.trans (slotFor_eq_ok_some_iff.2 ⟨hsome, hempty⟩)
  | ok slot =>
      have hrun (text : Bytes) : (slotContent record read draft name).run text =
          (do
            colon
            match slot with
            | none =>
              skipValue
              return draft
            | some slot =>
              let value ← read slot
              return draft.set slot value : Reader Draft).run text := by
        rw [slotContent, hslot]
        rfl
      cases slot with
      | none =>
          have hnone := slotFor_eq_ok_none_iff.1 hslot
          have htakes := TakesBehindColon.of_takes (skipValue_takes.map fun _ => draft)
          constructor
          · intro text draft' rest h
            rw [hrun] at h
            obtain ⟨before, after, taken, hbefore, hafter, ⟨_, htaken, rfl⟩, rfl⟩ := htakes.sound h
            exact ⟨before, after, taken, hbefore, hafter, .inl ⟨hnone, htaken, rfl⟩, rfl⟩
          · intro before after taken draft' rest hbefore hafter hfills hrest
            rw [hrun]
            rcases hfills with ⟨-, htaken, rfl⟩ | ⟨slot, hsome, -⟩
            · exact htakes.complete hbefore hafter ⟨(), htaken, rfl⟩ hrest
            · cases hnone.symm.trans hsome
      | some slot =>
          obtain ⟨hsome, hempty⟩ := slotFor_eq_ok_some_iff.1 hslot
          have htakes :=
            TakesBehindColon.of_takes ((hread slot).map fun value => draft.set slot value)
          constructor
          · intro text draft' rest h
            rw [hrun] at h
            obtain ⟨before, after, taken, hbefore, hafter, ⟨value, htaken, rfl⟩, rfl⟩ :=
              htakes.sound h
            exact ⟨before, after, taken, hbefore, hafter,
              .inr ⟨slot, hsome, hempty, value, htaken, rfl⟩, rfl⟩
          · intro before after taken draft' rest hbefore hafter hfills hrest
            rw [hrun]
            rcases hfills with ⟨hnone, -⟩ | ⟨found, hfound, -, value, htaken, rfl⟩
            · cases hnone.symm.trans hsome
            · cases hfound.symm.trans hsome
              exact htakes.complete hbefore hafter ⟨value, htaken, rfl⟩ hrest

/-- The entries of a record are read behind its brace exactly when a run over them fills a draft. -/
theorem run_slotEntries_eq_ok_iff
    (hread : ∀ slot, Takes Ends (read slot) fun text value => means text slot.target value)
    {draft : Draft} {tail rest : Bytes} :
    (entries (slotEntry record read) Draft.empty).run tail = .ok (draft, rest) ↔
      ∃ members taken, FormText (.entries members) taken ∧
        Steps (Fills record WellFormed means) Draft.empty members draft ∧
        123 :: tail = taken ++ rest := by
  have hsteps (texts : List (Bytes × Bytes)) :
      Steps (fun state => EntryReads fun name text state' =>
          Fills record WellFormed means state (name, text) state') Draft.empty texts draft ↔
        ∃ members, List.Forall₂ (fun member texts => StringText texts.1 member.1 ∧
          texts.2 = member.2) members texts ∧
          Steps (Fills record WellFormed means) Draft.empty members draft := by
    rw [← steps_exists_iff]
    apply steps_congr
    intro state texts state'
    apply Iff.intro
    · intro h
      rcases h with ⟨name, hname, hfills⟩
      exact ⟨(name, texts.2), ⟨hname, rfl⟩, hfills⟩
    · intro h
      rcases h with ⟨⟨name, text⟩, ⟨hname, rfl⟩, hfills⟩
      exact ⟨name, hname, hfills⟩
  have hcontent (state : Draft) (name : String) :
      TakesBehindColon (slotContent record read state name) fun text state' =>
        Fills record WellFormed means state (name, text) state' :=
    slotContent_takes hread state name
  apply (run_entries_of_key_iff hcontent).trans
  simp only [hsteps]
  apply Iff.intro
  · intro h
    rcases h with ⟨texts, taken, htext, ⟨members, hmembers, hsteps⟩, heq⟩
    exact ⟨members, taken, ⟨texts, htext, hmembers⟩, hsteps, heq⟩
  · intro h
    rcases h with ⟨members, taken, ⟨texts, htext, hmembers⟩, hsteps, heq⟩
    exact ⟨texts, taken, htext, ⟨members, hmembers, hsteps⟩, heq⟩

end Entries

section Records

theorem FormText.start {form : Form Bytes} {text : Bytes} (h : FormText form text) :
    ∃ b tail, text = b :: tail ∧ (b = 91 ∧ (∃ items, form = .items items) ∨
      b = 123 ∧ ∃ members, form = .entries members) := by
  cases form with
  | items values =>
      rcases h with ⟨inside, -, rfl⟩
      exact ⟨91, inside, rfl, .inl ⟨rfl, values, rfl⟩⟩
  | entries members =>
      rcases h with ⟨texts, ⟨_, inside, -, -, rfl⟩, -⟩
      exact ⟨123, inside, rfl, .inr ⟨rfl, members, rfl⟩⟩

/-- A record is taken in either form, before any rest. -/
theorem recordValue_takes (shape : Shape) {read : (slot : Slot) → Reader slot.Value}
    {means : Bytes → Meaning}
    (hread : ∀ slot, Takes Ends (read slot) fun text value => means text slot.target value)
    (hstart : ∀ {text target value}, means text target value →
      ∃ b tail, text = b :: tail ∧ IsValueStart b)
    (hmeans : Functional means) (levels : Nat) :
    Takes (fun _ => True) (recordValue shape.record read levels)
      (RecordText levels means shape) := by
  refine Takes.of_peek (fun {b tail value rest} _ h => ?_) fun {taken value rest} htaken _ => ?_
  · split at h
    · next hb =>
        obtain ⟨draft, middle, henter, hlast⟩ := run_bind_eq_ok.1 h
        obtain ⟨hbuild, rfl⟩ := run_ofExcept_eq_ok.1 hlast
        obtain ⟨hlevels, hitems⟩ := run_enter_eq_ok_iff.1 henter
        obtain ⟨items, taken, htext, hlength, hrequired, hsteps, heq⟩ :=
          (run_slotItems_eq_ok_iff hread hstart).1 hitems
        refine ⟨taken, ⟨hlevels, .items items, htext, ?_⟩, by rw [hb, heq]⟩
        exact (isRecord_items_iff hmeans shape).2 ⟨hlength, draft, hsteps, hrequired, hbuild⟩
    split at h
    · next hb =>
        obtain ⟨draft, middle, henter, hlast⟩ := run_bind_eq_ok.1 h
        obtain ⟨hbuild, rfl⟩ := run_ofExcept_eq_ok.1 hlast
        obtain ⟨hlevels, hentries⟩ := run_enter_eq_ok_iff.1 henter
        obtain ⟨members, taken, htext, hsteps, heq⟩ := (run_slotEntries_eq_ok_iff hread).1 hentries
        refine ⟨taken, ⟨hlevels, .entries members, htext, ?_⟩, by rw [hb, heq]⟩
        exact (isRecord_entries_iff hmeans shape).2 ⟨draft, hsteps, hbuild⟩
    · exact absurd h run_mismatch_ne_ok
  · rcases htaken with ⟨hlevels, form, htext, hrecord⟩
    obtain ⟨b, tail, rfl, ⟨rfl, items, rfl⟩ | ⟨rfl, members, rfl⟩⟩ := FormText.start htext
    · obtain ⟨hlength, draft, hsteps, hrequired, hbuild⟩ :=
        (isRecord_items_iff hmeans shape).1 hrecord
      refine ⟨91, tail, by decide, rfl, ?_⟩
      rw [if_pos rfl]
      refine run_bind_eq_ok.2 ⟨draft, rest, run_enter_eq_ok_iff.2 ⟨hlevels, ?_⟩,
        run_ofExcept_eq_ok.2 ⟨hbuild, rfl⟩⟩
      exact (run_slotItems_eq_ok_iff hread hstart).2
        ⟨items, _, htext, hlength, hrequired, hsteps, rfl⟩
    · obtain ⟨draft, hsteps, hbuild⟩ := (isRecord_entries_iff hmeans shape).1 hrecord
      refine ⟨123, tail, by decide, rfl, ?_⟩
      rw [if_neg (by decide), if_pos rfl]
      refine run_bind_eq_ok.2 ⟨draft, rest, run_enter_eq_ok_iff.2 ⟨hlevels, ?_⟩,
        run_ofExcept_eq_ok.2 ⟨hbuild, rfl⟩⟩
      exact (run_slotEntries_eq_ok_iff hread).2 ⟨members, _, htext, hsteps, rfl⟩

end Records

end InterfaceProbe.Reader
