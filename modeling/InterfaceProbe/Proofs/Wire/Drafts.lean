/-
# Filling records

Reading a record fills the slots of a draft, one entry after the other, and
then builds the value.  The module ties both to the description of records by
the values at their keys: a run over the entries succeeds exactly when no
known key occurs twice and every known value is read, and the built value is
then the described one.  How a value is read stays a parameter, so the lemmas
serve trees and texts alike.

An array fills the slots in order, which is the run over the entries that it
gives to the keys.
-/

import InterfaceProbe.Proofs.Wire.Meaning
import Mathlib.Data.List.Nodup

namespace InterfaceProbe

open Reader (Steps)

/-- The record of a shape. -/
def Shape.record : (shape : Shape) → Record shape.target.Value
  | .package => .package
  | .interface => .interface
  | .method => .method
  | .parameter => .parameter
  | .field => .field
  | .variant kind => kind.record

theorem Shape.map_label_slots (shape : Shape) : shape.record.slots.map Slot.label = shape.keys := by
  cases shape with
  | variant kind => cases kind <;> rfl
  | _ => rfl

theorem Shape.nodup_keys (shape : Shape) : shape.keys.Nodup := by
  cases shape with
  | variant kind => cases kind <;> decide
  | _ => decide

theorem Shape.nodup_labels (shape : Shape) : (shape.record.slots.map Slot.label).Nodup := by
  rw [shape.map_label_slots]
  exact shape.nodup_keys

section Values

variable {X : Type}

@[simp] theorem valuesAt_nil (key : String) : valuesAt ([] : List (String × X)) key = [] := rfl

theorem valuesAt_cons (name : String) (x : X) (members : List (String × X)) (key : String) :
    valuesAt ((name, x) :: members) key =
      if name = key then x :: valuesAt members key else valuesAt members key := by
  unfold valuesAt
  by_cases h : name = key
  · simp [h]
  · simp [h]

theorem valuesAt_map {Y : Type} (f : X → Y) (members : List (String × X)) (key : String) :
    valuesAt (members.map fun member => (member.1, f member.2)) key =
      (valuesAt members key).map f := by
  induction members with
  | nil => rfl
  | cons member members ih =>
      rcases member with ⟨name, x⟩
      rw [List.map_cons, valuesAt_cons, valuesAt_cons, ih]
      split <;> rfl

theorem mem_of_mem_valuesAt {members : List (String × X)} {key : String} {x : X}
    (h : x ∈ valuesAt members key) : (key, x) ∈ members := by
  obtain ⟨member, hmember, rfl⟩ := List.mem_map.1 h
  obtain ⟨hmember, hname⟩ := List.mem_filter.1 hmember
  rwa [← of_decide_eq_true hname]

theorem mem_of_valuesAt_eq {members : List (String × X)} {key : String} {x : X}
    (h : valuesAt members key = [x]) : (key, x) ∈ members :=
  mem_of_mem_valuesAt (h ▸ List.mem_singleton_self x)

end Values

section Runs

variable {α X : Type} {record : Record α} {ignored : X → Prop} {means : X → Meaning}

/-- What one entry does to a draft: a known key fills its slot, which was empty, and an unknown one
changes nothing. -/
def Fills (record : Record α) (ignored : X → Prop) (means : X → Meaning) (draft : Draft)
    (member : String × X) (draft' : Draft) : Prop :=
  record.slot? member.1 = none ∧ ignored member.2 ∧ draft' = draft ∨
    ∃ slot, record.slot? member.1 = some slot ∧ draft slot = none ∧
      ∃ value, means member.2 slot.target value ∧ draft' = draft.set slot value

/-- What a slot holds after some entries, given what it held before. -/
def SlotRead (means : X → Meaning) (members : List (String × X)) (slot : Slot)
    (before after : Option slot.Value) : Prop :=
  valuesAt members slot.label = [] ∧ after = before ∨
    before = none ∧ ∃ x value, valuesAt members slot.label = [x] ∧ means x slot.target value ∧
      after = some value

theorem Record.slot?_eq_none_iff {key : String} :
    record.slot? key = none ↔ key ∉ record.slots.map Slot.label := by
  rw [Record.slot?, List.find?_eq_none]
  simp

theorem Record.slot?_eq_some_iff (hnodup : (record.slots.map Slot.label).Nodup) {key : String}
    {slot : Slot} : record.slot? key = some slot ↔ slot ∈ record.slots ∧ slot.label = key := by
  apply Iff.intro
  · intro h
    exact ⟨List.mem_of_find?_eq_some h, by simpa using List.find?_some h⟩
  · intro h
    rcases h with ⟨hslot, rfl⟩
    cases hfound : record.slot? slot.label with
    | none => exact absurd (List.mem_map_of_mem hslot) (Record.slot?_eq_none_iff.1 hfound)
    | some found =>
        have hlabel : found.label = slot.label := by simpa using List.find?_some hfound
        have hmem := List.mem_of_find?_eq_some hfound
        rw [List.inj_on_of_nodup_map hnodup hmem hslot hlabel]

theorem slotRead_cons_of_ne {name : String} {x : X} {members : List (String × X)} {slot : Slot}
    {before after : Option slot.Value} (hne : name ≠ slot.label) :
    SlotRead means ((name, x) :: members) slot before after ↔
      SlotRead means members slot before after := by
  unfold SlotRead
  rw [valuesAt_cons, if_neg hne]

theorem slotRead_cons_self {x : X} {members : List (String × X)} {slot : Slot}
    {before after : Option slot.Value} :
    SlotRead means ((slot.label, x) :: members) slot before after ↔
      before = none ∧ valuesAt members slot.label = [] ∧
        ∃ value, means x slot.target value ∧ after = some value := by
  unfold SlotRead
  rw [valuesAt_cons, if_pos rfl]
  apply Iff.intro
  · intro h
    rcases h with ⟨hnil, -⟩ | ⟨hbefore, y, value, hvalues, hvalue, hafter⟩
    · cases hnil
    · obtain ⟨rfl, hrest⟩ := List.cons.inj hvalues
      exact ⟨hbefore, hrest, value, hvalue, hafter⟩
  · intro h
    rcases h with ⟨hbefore, hrest, value, hvalue, hafter⟩
    exact .inr ⟨hbefore, x, value, by rw [hrest], hvalue, hafter⟩

/-- A run over the entries is one step and a run over the others, seen from each slot. -/
theorem SlotRead.of_fills (hnodup : (record.slots.map Slot.label).Nodup)
    {draft middle after : Draft} {member : String × X} {members : List (String × X)}
    (hfills : Fills record ignored means draft member middle) {slot : Slot}
    (hslot : slot ∈ record.slots)
    (hread : SlotRead means members slot (middle slot) (after slot)) :
    SlotRead means (member :: members) slot (draft slot) (after slot) := by
  rcases member with ⟨name, x⟩
  rcases hfills with ⟨hnone, -, rfl⟩ | ⟨filled, hsome, hempty, value, hvalue, rfl⟩
  · apply (slotRead_cons_of_ne _).2 hread
    rintro rfl
    exact Record.slot?_eq_none_iff.1 hnone (List.mem_map_of_mem hslot)
  · obtain ⟨hfilled, rfl⟩ := (Record.slot?_eq_some_iff hnodup).1 hsome
    by_cases hsame : filled = slot
    · subst hsame
      rw [Draft.set_self] at hread
      rcases hread with ⟨hnone, hafter⟩ | ⟨hcontra, -⟩
      · exact slotRead_cons_self.2 ⟨hempty, hnone, value, hvalue, hafter⟩
      · cases hcontra
    · rw [Draft.set_of_ne _ _ hsame] at hread
      apply (slotRead_cons_of_ne _).2 hread
      exact fun hlabel => hsame (List.inj_on_of_nodup_map hnodup hfilled hslot hlabel)

theorem Fills.other (hnodup : (record.slots.map Slot.label).Nodup) {draft middle : Draft}
    {member : String × X} (hfills : Fills record ignored means draft member middle) {slot : Slot}
    (hslot : slot ∉ record.slots) : middle slot = draft slot := by
  rcases hfills with ⟨-, -, rfl⟩ | ⟨filled, hsome, -, value, -, rfl⟩
  · rfl
  · apply Draft.set_of_ne
    rintro rfl
    exact hslot ((Record.slot?_eq_some_iff hnodup).1 hsome).1

theorem Fills.ignores (hnodup : (record.slots.map Slot.label).Nodup) {draft middle : Draft}
    {member : String × X} (hfills : Fills record ignored means draft member middle)
    (hunknown : member.1 ∉ record.slots.map Slot.label) : ignored member.2 := by
  rcases hfills with ⟨-, hignored, -⟩ | ⟨filled, hsome, -⟩
  · exact hignored
  · obtain ⟨hfilled, hlabel⟩ := (Record.slot?_eq_some_iff hnodup).1 hsome
    exact absurd (hlabel ▸ List.mem_map_of_mem hfilled) hunknown

/-- The first step of a run whose outcome is known at each slot. -/
theorem exists_fills (hnodup : (record.slots.map Slot.label).Nodup) {draft after : Draft}
    {member : String × X} {members : List (String × X)}
    (hignored : member.1 ∉ record.slots.map Slot.label → ignored member.2)
    (hread : ∀ slot ∈ record.slots,
      SlotRead means (member :: members) slot (draft slot) (after slot)) :
    ∃ middle, Fills record ignored means draft member middle ∧
      ∀ slot ∈ record.slots, SlotRead means members slot (middle slot) (after slot) := by
  rcases member with ⟨name, x⟩
  cases hslot? : record.slot? name with
  | none =>
      have hunknown := Record.slot?_eq_none_iff.1 hslot?
      refine ⟨draft, .inl ⟨hslot?, hignored hunknown, rfl⟩, fun slot hslot => ?_⟩
      apply (slotRead_cons_of_ne _).1 (hread slot hslot)
      rintro rfl
      exact hunknown (List.mem_map_of_mem hslot)
  | some filled =>
      obtain ⟨hfilled, rfl⟩ := (Record.slot?_eq_some_iff hnodup).1 hslot?
      obtain ⟨hempty, hnone, value, hvalue, hafter⟩ := slotRead_cons_self.1 (hread filled hfilled)
      refine ⟨draft.set filled value, .inr ⟨filled, hslot?, hempty, value, hvalue, rfl⟩,
        fun slot hslot => ?_⟩
      by_cases hsame : filled = slot
      · subst hsame
        rw [Draft.set_self]
        exact .inl ⟨hnone, hafter⟩
      · rw [Draft.set_of_ne _ _ hsame]
        apply (slotRead_cons_of_ne _).1 (hread slot hslot)
        exact fun hlabel => hsame (List.inj_on_of_nodup_map hnodup hfilled hslot hlabel)

/-- A run over the entries fills each slot by the values at its key. -/
theorem steps_fills_iff (hnodup : (record.slots.map Slot.label).Nodup) {draft draft' : Draft}
    {members : List (String × X)} :
    Steps (Fills record ignored means) draft members draft' ↔
      (∀ member ∈ members, member.1 ∉ record.slots.map Slot.label → ignored member.2) ∧
        (∀ slot ∈ record.slots, SlotRead means members slot (draft slot) (draft' slot)) ∧
        ∀ slot, slot ∉ record.slots → draft' slot = draft slot := by
  induction members generalizing draft with
  | nil =>
      apply Iff.intro
      · intro h
        cases h
        exact ⟨by simp, fun _ _ => .inl ⟨rfl, rfl⟩, fun _ _ => rfl⟩
      · intro h
        rcases h with ⟨-, hknown, hother⟩
        have hsame : draft' = draft := by
          funext slot
          by_cases hslot : slot ∈ record.slots
          · rcases hknown slot hslot with ⟨-, h⟩ | ⟨-, x, value, h, -, -⟩
            · exact h
            · cases h
          · exact hother slot hslot
        rw [hsame]
        exact .nil
  | cons member members ih =>
      apply Iff.intro
      · intro h
        cases h with
        | cons hfills hsteps =>
            obtain ⟨hignored, hknown, hother⟩ := ih.1 hsteps
            refine ⟨List.forall_mem_cons.2 ⟨hfills.ignores hnodup, hignored⟩, ?_, ?_⟩
            · exact fun slot hslot => .of_fills hnodup hfills hslot (hknown slot hslot)
            · exact fun slot hslot => (hother slot hslot).trans (hfills.other hnodup hslot)
      · intro h
        rcases h with ⟨hignored, hknown, hother⟩
        obtain ⟨hfirst, hignored⟩ := List.forall_mem_cons.1 hignored
        obtain ⟨middle, hfills, hread⟩ := exists_fills hnodup hfirst hknown
        refine .cons hfills (ih.2 ⟨hignored, hread, fun slot hslot => ?_⟩)
        rw [hother slot hslot, hfills.other hnodup hslot]

end Runs

section Building

variable {X : Type} {means : X → Meaning} {members : List (String × X)} {draft : Draft}

/-- No place is read as two values of the same target. -/
def Functional (means : X → Meaning) : Prop :=
  ∀ ⦃x target⦄ ⦃value other : target.Value⦄, means x target value → means x target other →
    value = other

/-- The entries with what their values mean. -/
abbrev meanings (means : X → Meaning) (members : List (String × X)) : List (String × Meaning) :=
  members.map fun member => (member.1, means member.2)

theorem required_meanings_iff {key : String} {target : Target} {value : target.Value} :
    Required (meanings means members) key target value ↔
      ∃ x, valuesAt members key = [x] ∧ means x target value := by
  unfold Required
  rw [valuesAt_map]
  apply Iff.intro
  · intro h
    rcases h with ⟨meaning, hmap, hvalue⟩
    obtain ⟨x, hx, rfl⟩ := List.map_eq_singleton_iff.1 hmap
    exact ⟨x, hx, hvalue⟩
  · intro h
    rcases h with ⟨x, hx, hvalue⟩
    exact ⟨means x, by rw [hx]; rfl, hvalue⟩

theorem defaulted_meanings_iff {key : String} {target : Target} {default value : target.Value} :
    Defaulted (meanings means members) key target default value ↔
      valuesAt members key = [] ∧ value = default ∨
        ∃ x, valuesAt members key = [x] ∧ means x target value := by
  unfold Defaulted
  rw [required_meanings_iff, valuesAt_map, List.map_eq_nil_iff]

variable (hmeans : Functional means) {slot : Slot} {value : slot.Value}
  (hread : SlotRead means members slot none (draft slot))

include hmeans hread

theorem slotRead_some_iff :
    draft slot = some value ↔ Required (meanings means members) slot.label slot.target value := by
  rw [required_meanings_iff]
  rcases hread with ⟨hnil, hnone⟩ | ⟨-, x, found, hx, hfound, hsome⟩
  · simp [hnone, hnil]
  · rw [hsome, hx]
    apply Iff.intro
    · intro h
      cases h
      exact ⟨x, rfl, hfound⟩
    · intro h
      rcases h with ⟨y, hy, hvalue⟩
      cases hy
      rw [hmeans hfound hvalue]

/-- A slot without a default has a value when its key occurs. -/
theorem get_eq_ok_iff_required (hdefault : slot.default? = none) :
    draft.get slot = .ok value ↔
      Required (meanings means members) slot.label slot.target value := by
  rw [← slotRead_some_iff hmeans hread, Draft.get, hdefault, Option.or_none]
  cases draft slot <;> simp

/-- A slot with a default has the value at its key, else the default. -/
theorem get_eq_ok_iff_defaulted {default : slot.Value} (hdefault : slot.default? = some default) :
    draft.get slot = .ok value ↔
      Defaulted (meanings means members) slot.label slot.target default value := by
  rw [Defaulted, ← slotRead_some_iff hmeans hread, Draft.get, hdefault, valuesAt_map,
    List.map_eq_nil_iff]
  rcases hread with ⟨hnil, hnone⟩ | ⟨-, x, found, hx, -, hsome⟩
  · simp [hnil, hnone, eq_comm]
  · simp [hx, hsome]

end Building

section Sequencing

variable {α β γ δ ε : Type} {x : Except Fault α} {y : Except Fault β} {z : Except Fault γ}
  {w : Except Fault δ} {P : α → Prop} {Q : β → Prop} {R : γ → Prop} {S : δ → Prop}

theorem bind_eq_ok_iff {f : α → Except Fault β} {b : β} :
    x >>= f = .ok b ↔ ∃ a, x = .ok a ∧ f a = .ok b := by
  cases x with
  | error fault => simp [bind, Except.bind]
  | ok a => simp [bind, Except.bind]

variable (hx : ∀ a, x = .ok a ↔ P a) (hy : ∀ b, y = .ok b ↔ Q b) (hz : ∀ c, z = .ok c ↔ R c)
  (hw : ∀ d, w = .ok d ↔ S d)

include hx

theorem build_one_iff {f : α → ε} {e : ε} :
    (do let a ← x; return f a : Except Fault ε) = .ok e ↔ ∃ a, e = f a ∧ P a := by
  rw [bind_eq_ok_iff]
  apply Iff.intro
  · intro h
    rcases h with ⟨a, ha, h⟩
    cases h
    exact ⟨a, rfl, (hx a).1 ha⟩
  · intro h
    rcases h with ⟨a, rfl, ha⟩
    exact ⟨a, (hx a).2 ha, rfl⟩

include hy

theorem build_two_iff {f : α → β → ε} {e : ε} :
    (do let a ← x; let b ← y; return f a b : Except Fault ε) = .ok e ↔
      ∃ a b, e = f a b ∧ P a ∧ Q b := by
  rw [bind_eq_ok_iff]
  simp only [build_one_iff hy, hx]
  apply Iff.intro
  · intro h
    rcases h with ⟨a, ha, b, he, hb⟩
    exact ⟨a, b, he, ha, hb⟩
  · intro h
    rcases h with ⟨a, b, he, ha, hb⟩
    exact ⟨a, ha, b, he, hb⟩

include hz

theorem build_three_iff {f : α → β → γ → ε} {e : ε} :
    (do let a ← x; let b ← y; let c ← z; return f a b c : Except Fault ε) = .ok e ↔
      ∃ a b c, e = f a b c ∧ P a ∧ Q b ∧ R c := by
  rw [bind_eq_ok_iff]
  simp only [build_two_iff hy hz, hx]
  apply Iff.intro
  · intro h
    rcases h with ⟨a, ha, b, c, he, hb, hc⟩
    exact ⟨a, b, c, he, ha, hb, hc⟩
  · intro h
    rcases h with ⟨a, b, c, he, ha, hb, hc⟩
    exact ⟨a, ha, b, c, he, hb, hc⟩

include hw

theorem build_four_iff {f : α → β → γ → δ → ε} {e : ε} :
    (do let a ← x; let b ← y; let c ← z; let d ← w; return f a b c d : Except Fault ε) = .ok e ↔
      ∃ a b c d, e = f a b c d ∧ P a ∧ Q b ∧ R c ∧ S d := by
  rw [bind_eq_ok_iff]
  simp only [build_three_iff hy hz hw, hx]
  apply Iff.intro
  · intro h
    rcases h with ⟨a, ha, b, c, d, he, hb, hc, hd⟩
    exact ⟨a, b, c, d, he, ha, hb, hc, hd⟩
  · intro h
    rcases h with ⟨a, b, c, d, he, ha, hb, hc, hd⟩
    exact ⟨a, ha, b, c, d, he, hb, hc, hd⟩

end Sequencing

section Building

variable {X : Type} {means : X → Meaning} {members : List (String × X)} {draft : Draft}

/-- A record is built from the draft of its entries exactly when they describe it. -/
theorem build_eq_ok_iff (hmeans : Functional means) (shape : Shape)
    (hread : ∀ slot ∈ shape.record.slots, SlotRead means members slot none (draft slot))
    {value : shape.target.Value} :
    shape.record.build draft = .ok value ↔ shape.Describes (meanings means members) value := by
  have required (slot : Slot) (hslot : slot ∈ shape.record.slots) (hdefault : slot.default? = none)
      (found : slot.Value) : draft.get slot = .ok found ↔
        Required (meanings means members) slot.label slot.target found :=
    get_eq_ok_iff_required hmeans (hread slot hslot) hdefault
  have defaulted (slot : Slot) (hslot : slot ∈ shape.record.slots) (default : slot.Value)
      (hdefault : slot.default? = some default) (found : slot.Value) : draft.get slot = .ok found ↔
        Defaulted (meanings means members) slot.label slot.target default found :=
    get_eq_ok_iff_defaulted hmeans (hread slot hslot) hdefault
  cases shape with
  | package =>
      apply (build_two_iff (required .name (by decide) rfl)
        (defaulted .interfaces (by decide) [] rfl)).trans
      exact ⟨fun ⟨_, _, he, h⟩ => he ▸ h, fun h => ⟨_, _, rfl, h⟩⟩
  | interface =>
      apply (build_two_iff (required .name (by decide) rfl)
        (defaulted .methods (by decide) [] rfl)).trans
      exact ⟨fun ⟨_, _, he, h⟩ => he ▸ h, fun h => ⟨_, _, rfl, h⟩⟩
  | method =>
      apply (build_four_iff (required .name (by decide) rfl) (defaulted .params (by decide) [] rfl)
        (defaulted .results (by decide) [] rfl) (defaulted .variadic (by decide) none rfl)).trans
      cases value
      exact ⟨fun ⟨_, _, _, _, he, h⟩ => he ▸ h, fun h => ⟨_, _, _, _, rfl, h⟩⟩
  | parameter =>
      apply (build_two_iff (defaulted .parameterName (by decide) "" rfl)
        (required .type (by decide) rfl)).trans
      cases value
      exact ⟨fun ⟨_, _, he, h⟩ => he ▸ h, fun h => ⟨_, _, rfl, h⟩⟩
  | field =>
      apply (build_two_iff (required .name (by decide) rfl) (required .type (by decide) rfl)).trans
      cases value
      exact ⟨fun ⟨_, _, he, h⟩ => he ▸ h, fun h => ⟨_, _, rfl, h⟩⟩
  | variant kind =>
      cases kind with
      | named =>
          exact build_two_iff (defaulted .package (by decide) none rfl)
            (required .name (by decide) rfl)
      | pointer => exact build_one_iff (required .elem (by decide) rfl)
      | array =>
          exact build_two_iff (defaulted .len (by decide) none rfl) (required .elem (by decide) rfl)
      | map => exact build_two_iff (required .key (by decide) rfl) (required .value (by decide) rfl)
      | chan =>
          exact build_two_iff (defaulted .dir (by decide) .both rfl)
            (required .elem (by decide) rfl)
      | func =>
          exact build_three_iff (defaulted .params (by decide) [] rfl)
            (defaulted .results (by decide) [] rfl) (defaulted .variadic (by decide) none rfl)
      | struct => exact build_one_iff (defaulted .fields (by decide) [] rfl)
      | interface => exact build_one_iff (defaulted .methods (by decide) [] rfl)
      | predeclared => exact build_one_iff (required .name (by decide) rfl)

/-- A record is built from all of its slots. -/
theorem get_of_build (shape : Shape) {value : shape.target.Value}
    (h : shape.record.build draft = .ok value) :
    ∀ slot ∈ shape.record.slots, ∃ found, draft.get slot = .ok found := by
  have one {α β : Type} {x : Except Fault α} {f : α → β} {b : β}
      (h : (do let a ← x; return f a : Except Fault β) = .ok b) : ∃ a, x = .ok a := by
    obtain ⟨a, -, ha⟩ := (build_one_iff fun _ => Iff.rfl).1 h
    exact ⟨a, ha⟩
  have both {α β γ : Type} {x : Except Fault α} {y : Except Fault β} {f : α → β → γ} {c : γ}
      (h : (do let a ← x; let b ← y; return f a b : Except Fault γ) = .ok c) :
      (∃ a, x = .ok a) ∧ ∃ b, y = .ok b := by
    obtain ⟨a, b, -, ha, hb⟩ := (build_two_iff (fun _ => Iff.rfl) fun _ => Iff.rfl).1 h
    exact ⟨⟨a, ha⟩, b, hb⟩
  cases shape with
  | method =>
      obtain ⟨a, b, c, d, -, ha, hb, hc, hd⟩ := (build_four_iff (fun _ => Iff.rfl)
        (fun _ => Iff.rfl) (fun _ => Iff.rfl) fun _ => Iff.rfl).1 h
      exact List.forall_mem_cons.2 ⟨⟨a, ha⟩, by simp [hb, hc, hd]⟩
  | package | interface | parameter | field =>
      obtain ⟨hfirst, hsecond⟩ := both h
      exact List.forall_mem_cons.2 ⟨hfirst, by simpa using hsecond⟩
  | variant kind =>
      cases kind with
      | func =>
          obtain ⟨a, b, c, -, ha, hb, hc⟩ := (build_three_iff (fun _ => Iff.rfl)
            (fun _ => Iff.rfl) fun _ => Iff.rfl).1 h
          exact List.forall_mem_cons.2 ⟨⟨a, ha⟩, by simp [hb, hc]⟩
      | pointer | struct | interface | predeclared =>
          exact List.forall_mem_cons.2 ⟨one h, by simp⟩
      | named | array | map | chan =>
          obtain ⟨hfirst, hsecond⟩ := both h
          exact List.forall_mem_cons.2 ⟨hfirst, by simpa using hsecond⟩

theorem firstRequired_eq_none_iff {index : Nat} {slots : List Slot} :
    firstRequired index slots = none ↔ ∀ slot ∈ slots, slot.default? ≠ none := by
  induction slots generalizing index with
  | nil => simp [firstRequired]
  | cons slot slots ih =>
      have hrest : firstRequired (index + 1) slots = none ↔
          ∀ slot ∈ slots, slot.default? ≠ none := ih
      rw [firstRequired, List.forall_mem_cons, ← hrest]
      cases h : slot.default? <;> simp [Slot.isRequired, h]

/-- A built record lacks only slots with a default. -/
theorem firstRequired_eq_none_of_build (shape : Shape) {value : shape.target.Value}
    (h : shape.record.build draft = .ok value) {index : Nat} {slots : List Slot}
    (hslots : ∀ slot ∈ slots, slot ∈ shape.record.slots ∧ draft slot = none) :
    firstRequired index slots = none := by
  refine firstRequired_eq_none_iff.2 fun slot hslot hdefault => ?_
  obtain ⟨hmem, hnone⟩ := hslots slot hslot
  obtain ⟨found, hfound⟩ := get_of_build shape h slot hmem
  rw [Draft.get, hnone, hdefault] at hfound
  cases hfound

end Building

section Items

variable {α X : Type} {record : Record α} {ignored : X → Prop} {means : X → Meaning}

/-- What one item of an array does to a draft: it fills the slot whose turn it is. -/
def Sets (means : X → Meaning) (draft : Draft) (item : Slot × X) (draft' : Draft) : Prop :=
  ∃ value, means item.2 item.1.target value ∧ draft' = draft.set item.1 value

/-- Slots that are filled in order are filled as by the entries that the items stand for. -/
theorem steps_sets_iff (hnodup : (record.slots.map Slot.label).Nodup) {slots : List Slot}
    {items : List X} {draft draft' : Draft} (hslots : slots ⊆ record.slots)
    (hdistinct : slots.Nodup) (hempty : ∀ slot ∈ slots, draft slot = none) :
    Steps (Sets means) draft (slots.zip items) draft' ↔
      Steps (Fills record ignored means) draft ((slots.map Slot.label).zip items) draft' := by
  induction slots generalizing items draft with
  | nil =>
      constructor <;>
      · intro h
        cases h
        exact .nil
  | cons slot slots ih =>
      cases items with
      | nil =>
          constructor <;>
          · intro h
            cases h
            exact .nil
      | cons item items =>
          have hmem : slot ∈ record.slots := hslots List.mem_cons_self
          obtain ⟨hfresh, hdistinct⟩ := List.nodup_cons.1 hdistinct
          have hempty' (value : slot.Value) :
              ∀ other ∈ slots, draft.set slot value other = none := by
            intro other hother
            have hne : slot ≠ other := by
              rintro rfl
              exact hfresh hother
            rw [Draft.set_of_ne _ _ hne]
            exact hempty other (List.mem_cons_of_mem _ hother)
          have hrest (value : slot.Value) :
              Steps (Sets means) (draft.set slot value) (slots.zip items) draft' ↔
                Steps (Fills record ignored means) (draft.set slot value)
                  ((slots.map Slot.label).zip items) draft' :=
            ih (fun _ h => hslots (List.mem_cons_of_mem _ h)) hdistinct (hempty' value)
          have hslot? := (Record.slot?_eq_some_iff hnodup).2 ⟨hmem, rfl⟩
          apply Iff.intro
          · intro h
            cases h with
            | cons hstep hsteps =>
                rcases hstep with ⟨value, hvalue, rfl⟩
                exact .cons
                  (.inr ⟨slot, hslot?, hempty slot List.mem_cons_self, value, hvalue, rfl⟩)
                  ((hrest value).1 hsteps)
          · intro h
            cases h with
            | cons hstep hsteps =>
                rcases hstep with ⟨hnone, -⟩ | ⟨found, hfound, -, value, hvalue, rfl⟩
                · cases hslot?.symm.trans hnone
                · cases hslot?.symm.trans hfound
                  exact .cons ⟨value, hvalue, rfl⟩ ((hrest value).2 hsteps)

/-- Slots past the last item stay as they were. -/
theorem Steps.draft_eq_of_not_mem {slots : List Slot} {items : List X} {draft draft' : Draft}
    (h : Steps (Sets means) draft (slots.zip items) draft') {slot : Slot}
    (hslot : slot ∉ slots.take items.length) : draft' slot = draft slot := by
  induction slots generalizing items draft with
  | nil =>
      cases h
      rfl
  | cons first slots ih =>
      cases items with
      | nil =>
          cases h
          rfl
      | cons item items =>
          rw [List.length_cons, List.take_succ_cons, List.mem_cons, not_or] at hslot
          cases h with
          | cons hstep hsteps =>
              rcases hstep with ⟨value, -, rfl⟩
              rw [ih hsteps hslot.2, Draft.set_of_ne _ _ (Ne.symm hslot.1)]

end Items

section Records

variable {X : Type} {means : X → Meaning} {members : List (String × X)}

/-- A key does not occur, or it occurs once with a value that can be read. -/
def Readable (means : X → Meaning) (members : List (String × X)) (slot : Slot) : Prop :=
  valuesAt members slot.label = [] ∨
    ∃ x value, valuesAt members slot.label = [x] ∧ means x slot.target value

theorem Readable.of_required {slot : Slot} {value : slot.Value}
    (h : Required (meanings means members) slot.label slot.target value) :
    Readable means members slot := by
  obtain ⟨x, hx, hvalue⟩ := required_meanings_iff.1 h
  exact .inr ⟨x, value, hx, hvalue⟩

theorem Readable.of_defaulted {slot : Slot} {default value : slot.Value}
    (h : Defaulted (meanings means members) slot.label slot.target default value) :
    Readable means members slot := by
  rcases defaulted_meanings_iff.1 h with ⟨hnil, -⟩ | ⟨x, hx, hvalue⟩
  · exact .inl hnil
  · exact .inr ⟨x, value, hx, hvalue⟩

/-- Entries that describe a value can be read at each slot of its record. -/
theorem readable_of_describes (shape : Shape) {value : shape.target.Value}
    (h : shape.Describes (meanings means members) value) :
    ∀ slot ∈ shape.record.slots, Readable means members slot := by
  have required (slot : Slot) (value : slot.Value)
      (h : Required (meanings means members) slot.label slot.target value) :
      Readable means members slot := .of_required h
  have defaulted (slot : Slot) (default value : slot.Value)
      (h : Defaulted (meanings means members) slot.label slot.target default value) :
      Readable means members slot := .of_defaulted h
  have both {first second : Slot} (hfirst : Readable means members first)
      (hsecond : Readable means members second) :
      ∀ slot ∈ [first, second], Readable means members slot :=
    List.forall_mem_cons.2 ⟨hfirst, List.forall_mem_singleton.2 hsecond⟩
  cases shape with
  | package =>
      rcases h with ⟨hname, hinterfaces⟩
      exact both (required .name _ hname) (defaulted .interfaces _ _ hinterfaces)
  | interface =>
      rcases h with ⟨hname, hmethods⟩
      exact both (required .name _ hname) (defaulted .methods _ _ hmethods)
  | method =>
      rcases h with ⟨hname, hparams, hresults, hvariadic⟩
      exact List.forall_mem_cons.2 ⟨required .name _ hname, List.forall_mem_cons.2
        ⟨defaulted .params _ _ hparams,
          both (defaulted .results _ _ hresults) (defaulted .variadic _ _ hvariadic)⟩⟩
  | parameter =>
      rcases h with ⟨hname, htype⟩
      exact both (defaulted .parameterName _ _ hname) (required .type _ htype)
  | field =>
      rcases h with ⟨hname, htype⟩
      exact both (required .name _ hname) (required .type _ htype)
  | variant kind =>
      cases kind with
      | named =>
          rcases h with ⟨_, _, -, hpackage, hname⟩
          exact both (defaulted .package _ _ hpackage) (required .name _ hname)
      | pointer =>
          rcases h with ⟨_, -, helem⟩
          exact List.forall_mem_singleton.2 (required .elem _ helem)
      | array =>
          rcases h with ⟨_, _, -, hlen, helem⟩
          exact both (defaulted .len _ _ hlen) (required .elem _ helem)
      | map =>
          rcases h with ⟨_, _, -, hkey, hvalue⟩
          exact both (required .key _ hkey) (required .value _ hvalue)
      | chan =>
          rcases h with ⟨_, _, -, hdir, helem⟩
          exact both (defaulted .dir _ _ hdir) (required .elem _ helem)
      | func =>
          rcases h with ⟨_, _, _, -, hparams, hresults, hvariadic⟩
          exact List.forall_mem_cons.2 ⟨defaulted .params _ _ hparams,
            both (defaulted .results _ _ hresults) (defaulted .variadic _ _ hvariadic)⟩
      | struct =>
          rcases h with ⟨_, -, hfields⟩
          exact List.forall_mem_singleton.2 (defaulted .fields _ _ hfields)
      | interface =>
          rcases h with ⟨_, -, hmethods⟩
          exact List.forall_mem_singleton.2 (defaulted .methods _ _ hmethods)
      | predeclared =>
          rcases h with ⟨_, -, hname⟩
          exact List.forall_mem_singleton.2 (required .name _ hname)

/-- The value of a known key is read as what its slot holds. -/
theorem exists_meaning_of_describes (shape : Shape) {value : shape.target.Value}
    (h : shape.Describes (meanings means members) value) {member : String × X}
    (hmember : member ∈ members) (hkey : member.1 ∈ shape.keys) :
    ∃ slot ∈ shape.record.slots, slot.label = member.1 ∧
      ∃ found, means member.2 slot.target found := by
  rw [← shape.map_label_slots] at hkey
  obtain ⟨slot, hslot, hlabel⟩ := List.mem_map.1 hkey
  have hvalue : member.2 ∈ valuesAt members slot.label :=
    List.mem_map.2 ⟨member, List.mem_filter.2 ⟨hmember, by simp [hlabel]⟩, rfl⟩
  rcases readable_of_describes shape h slot hslot with hnil | ⟨x, found, hx, hfound⟩
  · rw [hnil] at hvalue
    cases hvalue
  · rw [hx, List.mem_singleton] at hvalue
    exact ⟨slot, hslot, hlabel, found, hvalue ▸ hfound⟩

/-- The draft that readable entries fill. -/
theorem exists_draft_of_readable {slots : List Slot}
    (h : ∀ slot ∈ slots, Readable means members slot) :
    ∃ draft : Draft, (∀ slot ∈ slots, SlotRead means members slot none (draft slot)) ∧
      ∀ slot, slot ∉ slots → draft slot = none := by
  have hslot (slot : Slot) : ∃ after, (slot ∈ slots → SlotRead means members slot none after) ∧
      (slot ∉ slots → after = none) := by
    by_cases hmem : slot ∈ slots
    · rcases h slot hmem with hnil | ⟨x, value, hx, hvalue⟩
      · exact ⟨none, fun _ => .inl ⟨hnil, rfl⟩, fun _ => rfl⟩
      · exact ⟨some value, fun _ => .inr ⟨rfl, x, value, hx, hvalue, rfl⟩,
          fun hnot => absurd hmem hnot⟩
    · exact ⟨none, fun hin => absurd hin hmem, fun _ => rfl⟩
  choose draft hdraft using hslot
  exact ⟨draft, fun slot => (hdraft slot).1, fun slot => (hdraft slot).2⟩

variable {ignored : X → Prop} (hmeans : Functional means) (shape : Shape)
  {value : shape.target.Value}

include hmeans

/-- An object is read as a record exactly when it is one. -/
theorem isRecord_entries_iff :
    IsRecord shape ignored means (.entries members) value ↔
      ∃ draft, Steps (Fills shape.record ignored means) Draft.empty members draft ∧
        shape.record.build draft = .ok value := by
  apply Iff.intro
  · intro h
    rcases h with ⟨-, hunknown, hknown⟩
    obtain ⟨draft, hread, hother⟩ := exists_draft_of_readable (readable_of_describes shape hknown)
    refine ⟨draft, (steps_fills_iff shape.nodup_labels).2 ⟨?_, hread, hother⟩, ?_⟩
    · rw [shape.map_label_slots]
      exact hunknown
    · exact (build_eq_ok_iff hmeans shape hread).2 hknown
  · intro h
    rcases h with ⟨draft, hsteps, hbuild⟩
    obtain ⟨hunknown, hread, -⟩ := (steps_fills_iff shape.nodup_labels).1 hsteps
    rw [shape.map_label_slots] at hunknown
    exact ⟨trivial, hunknown, (build_eq_ok_iff hmeans shape hread).1 hbuild⟩

/-- An array is read as a record exactly when it is one. -/
theorem isRecord_items_iff {items : List X} :
    IsRecord shape ignored means (.items items) value ↔
      items.length ≤ shape.record.slots.length ∧
        ∃ draft, Steps (Sets means) Draft.empty (shape.record.slots.zip items) draft ∧
          firstRequired items.length (shape.record.slots.drop items.length) = none ∧
          shape.record.build draft = .ok value := by
  have hlength : shape.record.slots.length = shape.keys.length := by
    rw [← shape.map_label_slots, List.length_map]
  have hsame : IsRecord shape ignored means (.items items) value ↔
      items.length ≤ shape.keys.length ∧
        IsRecord shape ignored means (.entries (shape.keys.zip items)) value := by
    apply Iff.intro
    · intro h
      rcases h with ⟨hfits, hunknown, hknown⟩
      exact ⟨hfits, trivial, hunknown, hknown⟩
    · intro h
      rcases h with ⟨hfits, -, hunknown, hknown⟩
      exact ⟨hfits, hunknown, hknown⟩
  have hdistinct : shape.record.slots.Nodup := List.Nodup.of_map _ shape.nodup_labels
  have hempty : ∀ slot ∈ shape.record.slots, Draft.empty slot = none := fun _ _ => rfl
  rw [hsame, isRecord_entries_iff hmeans, hlength]
  apply and_congr_right
  intro hfits
  apply exists_congr
  intro draft
  rw [← shape.map_label_slots, ← steps_sets_iff shape.nodup_labels (List.Subset.refl _) hdistinct
    hempty]
  apply and_congr_right
  intro hsteps
  apply Iff.intro
  · intro hbuild
    refine ⟨firstRequired_eq_none_of_build shape hbuild fun slot hslot => ?_, hbuild⟩
    refine ⟨List.mem_of_mem_drop hslot, ?_⟩
    rw [Steps.draft_eq_of_not_mem hsteps fun htaken => ?_]
    · rfl
    · exact List.disjoint_take_drop hdistinct (Nat.le_refl _) htaken hslot
  · exact fun h => h.2

end Records

end InterfaceProbe
