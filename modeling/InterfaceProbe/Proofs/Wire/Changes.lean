/-
# Records with one entry changed

What is read of the wire form of a record after one of its entries was removed,
repeated or given another value.  The entries of an object fill a draft, and
which slots are filled says everything about the outcome: a removed entry leaves
its slot to the default, or to the fault if there is none, a repeated one finds
its slot filled, and another value goes where the first one went.

The kind of a variant fills no slot and is treated by itself.
-/

import InterfaceProbe.Proofs.Wire.Slots

namespace InterfaceProbe

section Drafts

/-- Leaves a slot empty. -/
def Draft.unset (draft : Draft) (slot : Slot) : Draft :=
  fun other => if other = slot then none else draft other

@[simp] theorem Draft.unset_self (draft : Draft) (slot : Slot) : draft.unset slot slot = none := by
  simp [unset]

theorem Draft.unset_of_ne (draft : Draft) {slot other : Slot} (h : other ≠ slot) :
    draft.unset slot other = draft other := by
  simp [unset, h]

theorem Draft.get_congr {draft other : Draft} {slot : Slot} (h : draft slot = other slot) :
    draft.get slot = other.get slot := by
  rw [get, get, h]

theorem Draft.entriesAt_congr {draft other : Draft} {slot : Slot} (h : draft slot = other slot) :
    draft.entriesAt slot = other.entriesAt slot := by
  rw [entriesAt, entriesAt, get_congr h]

variable {shape : Shape} {entries before after : List (String × Json)} {draft : Draft} {slot : Slot}
  {tree : Json}

/-- The entries fill the draft. -/
structure Shape.Drafts (shape : Shape) (entries : List (String × Json)) (draft : Draft) :
    Prop where
  known : ∀ slot ∈ shape.record.slots, SlotRead Json.meaning entries slot none (draft slot)
  other : ∀ slot, slot ∉ shape.record.slots → draft slot = none

/-- Going through the entries one by one fills the draft. -/
theorem Shape.Drafts.foldlM_eq_ok (h : shape.Drafts entries draft) :
    (entryReadings entries).foldlM (Reading.fillEntry shape.record) Draft.empty = .ok draft := by
  rw [entryReadings_eq_map, List.foldlM_map, foldlM_eq_ok_iff]
  have hsteps : Reader.Steps (Fills shape.record (fun _ => True) Json.meaning) Draft.empty entries
      draft :=
    (steps_fills_iff shape.nodup_labels).2 ⟨fun _ _ _ => trivial, h.known, h.other⟩
  refine (Reader.steps_congr fun draft entry draft' => ?_).2 hsteps
  rw [Reading.fillEntry_eq_ok_iff, Fills, Fills, ← Json.toMeaning_reading]

theorem Shape.Drafts.recordOfEntries (h : shape.Drafts entries draft) :
    Reading.recordOfEntries shape.record (entryReadings entries) = shape.record.build draft := by
  rw [Reading.recordOfEntries_eq_foldlM, h.foldlM_eq_ok]
  rfl

theorem valuesAt_append {X : Type} (first second : List (String × X)) (key : String) :
    valuesAt (first ++ second) key = valuesAt first key ++ valuesAt second key := by
  simp [valuesAt]

theorem valuesAt_around_of_ne {X : Type} {before after : List (String × X)} {name key : String}
    {x : X} (h : name ≠ key) :
    valuesAt (before ++ (name, x) :: after) key = valuesAt (before ++ after) key := by
  rw [valuesAt_append, valuesAt_append, valuesAt_cons, if_neg h]

theorem valuesAt_around_self {X : Type} {before after : List (String × X)} {key : String} {x : X} :
    valuesAt (before ++ (key, x) :: after) key =
      valuesAt before key ++ x :: valuesAt after key := by
  rw [valuesAt_append, valuesAt_cons, if_pos rfl]

theorem mem_valuesAt_of_mem {X : Type} {members : List (String × X)} {key : String} {x : X}
    (h : (key, x) ∈ members) : x ∈ valuesAt members key :=
  List.mem_map.2 ⟨(key, x), List.mem_filter.2 ⟨h, by simp⟩, rfl⟩

/-- The slots of a record have different labels. -/
theorem Shape.label_ne {other : Slot} (hslot : slot ∈ shape.record.slots)
    (hother : other ∈ shape.record.slots) (h : other ≠ slot) : slot.label ≠ other.label :=
  fun hlabel => h (List.inj_on_of_nodup_map shape.nodup_labels hother hslot hlabel.symm)

/-- What is written at a slot is written once. -/
theorem Shape.Drafts.once (h : shape.Drafts (before ++ (slot.label, tree) :: after) draft)
    (hslot : slot ∈ shape.record.slots) :
    valuesAt (before ++ after) slot.label = [] ∧
      ∃ value, tree.meaning slot.target value ∧ draft slot = some value := by
  rcases h.known slot hslot with ⟨hnil, -⟩ | ⟨-, x, value, hx, hvalue, hsome⟩
  · rw [valuesAt_around_self] at hnil
    exact absurd hnil (by simp)
  · rw [valuesAt_around_self, List.append_eq_singleton_iff] at hx
    rcases hx with ⟨hbefore, hafter⟩ | ⟨-, hafter⟩
    · obtain ⟨rfl, hnil⟩ := List.cons.inj hafter
      exact ⟨by rw [valuesAt_append, hbefore, hnil]; rfl, value, hvalue, hsome⟩
    · cases hafter

/-- Without the entry the slot is left empty. -/
theorem Shape.Drafts.without (h : shape.Drafts (before ++ (slot.label, tree) :: after) draft)
    (hslot : slot ∈ shape.record.slots) :
    shape.Drafts (before ++ after) (draft.unset slot) where
  known other hother := by
    by_cases hsame : other = slot
    · subst hsame
      exact .inl ⟨(h.once hother).1, draft.unset_self other⟩
    · have hread := h.known other hother
      rwa [SlotRead, valuesAt_around_of_ne (Shape.label_ne hslot hother hsame),
        ← draft.unset_of_ne hsame] at hread
  other other hother := by
    rw [draft.unset_of_ne (by rintro rfl; exact hother hslot)]
    exact h.other other hother

/-- With another value the slot holds that one. -/
theorem Shape.Drafts.replaced (h : shape.Drafts (before ++ (slot.label, tree) :: after) draft)
    (hslot : slot ∈ shape.record.slots) {tree' : Json} {value : slot.Value}
    (hvalue : tree'.meaning slot.target value) :
    shape.Drafts (before ++ (slot.label, tree') :: after) (draft.set slot value) where
  known other hother := by
    by_cases hsame : other = slot
    · subst hsame
      have hnone := (h.once hother).1
      rw [valuesAt_append, List.append_eq_nil_iff] at hnone
      refine .inr ⟨rfl, tree', value, ?_, hvalue, draft.set_self other value⟩
      rw [valuesAt_around_self, hnone.1, hnone.2]
      rfl
    · have hlabel := Shape.label_ne hslot hother hsame
      have hread := h.known other hother
      rw [SlotRead, valuesAt_around_of_ne hlabel] at hread
      rwa [SlotRead, valuesAt_around_of_ne hlabel, draft.set_of_ne value (Ne.symm hsame)]
  other other hother := by
    rw [draft.set_of_ne value (by rintro rfl; exact hother hslot)]
    exact h.other other hother

/-- Entries that stand among those that fill a draft fill another one, if no key is repeated. -/
theorem Shape.Drafts.exists_of_subset (h : shape.Drafts entries draft)
    (hkeys : (entries.map Prod.fst).Nodup) {part : List (String × Json)} (hpart : part ⊆ entries)
    (hnodup : (part.map Prod.fst).Nodup) : ∃ draft', shape.Drafts part draft' := by
  have hreadable : ∀ slot ∈ shape.record.slots, Readable Json.meaning part slot := by
    intro slot hslot
    by_cases hmem : slot.label ∈ part.map Prod.fst
    · obtain ⟨⟨name, tree⟩, htree, hlabel⟩ := List.mem_map.1 hmem
      replace htree : (slot.label, tree) ∈ part := hlabel ▸ htree
      have hread := h.known slot hslot
      rw [SlotRead, valuesAt_of_mem hkeys (hpart htree)] at hread
      rcases hread with ⟨hnil, -⟩ | ⟨-, x, value, hx, hvalue, -⟩
      · cases hnil
      · cases hx
        exact .inr ⟨tree, value, valuesAt_of_mem hnodup htree, hvalue⟩
    · exact .inl (valuesAt_of_not_mem hmem)
  obtain ⟨draft', hknown, hother⟩ := exists_draft_of_readable hreadable
  exact ⟨draft', hknown, hother⟩

/-- A key finds its slot empty unless it occurs among the entries. -/
theorem Shape.Drafts.slotFor_eq (h : shape.Drafts entries draft)
    (hslot : slot ∈ shape.record.slots) :
    (valuesAt entries slot.label = [] →
        shape.record.slotFor draft slot.label = .ok (some slot)) ∧
      (slot.label ∈ entries.map Prod.fst →
        shape.record.slotFor draft slot.label = .error (.duplicateField slot.label)) := by
  have hsome := (Record.slot?_eq_some_iff shape.nodup_labels).2 ⟨hslot, rfl⟩
  rw [Record.slotFor, hsome]
  rcases h.known slot hslot with ⟨hnil, hnone⟩ | ⟨-, x, value, hx, -, hfilled⟩
  · refine ⟨fun _ => by simp [hnone], fun hmem => ?_⟩
    obtain ⟨⟨name, x⟩, hx, hlabel⟩ := List.mem_map.1 hmem
    replace hx : (slot.label, x) ∈ entries := hlabel ▸ hx
    have hvalue := mem_valuesAt_of_mem hx
    rw [hnil] at hvalue
    cases hvalue
  · refine ⟨fun hnil => ?_, fun _ => by simp [hfilled]⟩
    rw [hnil] at hx
    cases hx

/-- The first entry that is refused is the fault of a record. -/
theorem Shape.Drafts.recordOfEntries_eq_error (h : shape.Drafts before draft)
    {entry : String × Json} {fault : Fault}
    (hstop : Reading.fillEntry shape.record draft (entry.1, entry.2.reading) = .error fault) :
    Reading.recordOfEntries shape.record (entryReadings (before ++ entry :: after)) =
      .error fault := by
  have hfront := h.foldlM_eq_ok
  rw [entryReadings_eq_map] at hfront
  rw [Reading.recordOfEntries_eq_foldlM, entryReadings_eq_map, List.map_append, List.foldlM_append,
    hfront, List.map_cons]
  simp [bind, Except.bind, hstop]

/-- Where an entry is put in a second time, it stands behind entries with different keys among
which it is. -/
theorem exists_repeated {X : Type} {front back : List (String × X)} {entry : String × X}
    (h : entry ∈ front ++ back) (hnodup : ((front ++ back).map Prod.fst).Nodup) :
    ∃ part rest, front ++ entry :: back = part ++ entry :: rest ∧ entry ∈ part ∧
      part ⊆ front ++ back ∧ (part.map Prod.fst).Nodup := by
  suffices hpart : ∃ part others rest, front ++ entry :: back = part ++ entry :: rest ∧
      entry ∈ part ∧ (part ++ others).Perm (front ++ back) by
    rcases hpart with ⟨part, others, rest, heq, hmem, hperm⟩
    have hkeys := (hperm.map Prod.fst).nodup_iff.2 hnodup
    rw [List.map_append] at hkeys
    exact ⟨part, rest, heq, hmem, fun _ hother => hperm.subset (List.mem_append_left _ hother),
      hkeys.of_append_left⟩
  rcases List.mem_append.1 h with h | h
  · exact ⟨front, back, back, rfl, h, .refl _⟩
  · obtain ⟨first, second, rfl⟩ := List.append_of_mem h
    refine ⟨front ++ entry :: first, second, second, by simp, by simp, ?_⟩
    rw [List.append_assoc, List.cons_append]
    exact .append_left front List.perm_middle.symm

end Drafts

section Objects

variable {shape : Shape} {record : shape.target.Value} {entries before after : List (String × Json)}
  {draft : Draft} {slot : Slot} {tree : Json}

/-- The kind of a variant is named once. -/
def Shape.IsNamed (entries : List (String × Json)) : Shape → Prop
  | .variant kind => valuesAt entries kindKey = [.string kind.name]
  | _ => True

/-- The entry of the kind is no part of the record. -/
theorem recordOfEntries_filter (shape : Shape) (entries : List (String × Json)) :
    Reading.recordOfEntries shape.record
        (entryReadings (entries.filter fun entry => entry.1 ≠ kindKey)) =
      Reading.recordOfEntries shape.record (entryReadings entries) := by
  have hskip (draft : Draft) (reading : Reading) :
      Reading.fillEntry shape.record draft (kindKey, reading) = .ok draft := by
    have hnone : shape.record.slot? kindKey = none := by
      rw [Record.slot?_eq_none_iff, shape.map_label_slots]
      exact kindKey_not_mem_keys shape
    rw [Reading.fillEntry, Record.slotFor, hnone]
    rfl
  rw [Reading.recordOfEntries_eq_foldlM, Reading.recordOfEntries_eq_foldlM]
  congr 1
  generalize Draft.empty = draft
  induction entries generalizing draft with
  | nil => rfl
  | cons entry entries ih =>
      rcases entry with ⟨name, tree⟩
      by_cases hname : name = kindKey
      · subst hname
        rw [List.filter_cons_of_neg (by simp), entryReadings, List.foldlM_cons, hskip]
        exact ih draft
      · rw [List.filter_cons_of_pos (by simpa using hname), entryReadings, entryReadings,
          List.foldlM_cons, List.foldlM_cons]
        congr 1
        funext draft'
        exact ih draft'

/-- An object whose kind is named, where it needs one, is read as the record of its entries. -/
theorem reading_of_isNamed (h : shape.IsNamed entries) :
    (Json.object entries).reading shape.target =
      Reading.recordOfEntries shape.record (entryReadings entries) := by
  cases shape with
  | variant kind =>
      have hkind : Reading.kindOfEntries (entryReadings entries) =
          .ok (kind, entryReadings (entries.filter fun entry => entry.1 ≠ kindKey)) := by
        refine Reading.kindOfEntries_eq_ok_iff.2 ⟨(Json.string kind.name).reading, ⟨?_, ?_⟩, ?_⟩
        · have hvalues := valuesAt_map Json.reading entries kindKey
          rw [show valuesAt entries kindKey = [_] from h, ← entryReadings_eq_map] at hvalues
          exact hvalues
        · exact congrArg Form.entries
            (entryReadings_filter (fun key => decide (key ≠ kindKey)) entries).symm
        · exact Reading.kind_ofName_eq_ok_iff.2 rfl
      change Reading.kindOfEntries (entryReadings entries) >>= _ = _
      rw [hkind]
      exact recordOfEntries_filter (.variant kind) entries
  | _ => rfl

theorem present_target (shape : Shape) : shape.target.Present := by
  cases shape <;> trivial

section Written

variable (hentries : wireForm shape.target record = .object entries) (hkind : shape.HasKind entries)

include hentries hkind

theorem nodup_keys : (entries.map Prod.fst).Nodup :=
  (keys_sublist_known hentries hkind).nodup (nodup_known shape)

theorem isNamed_of_hasKind : shape.IsNamed entries := by
  cases shape with
  | variant kind => exact valuesAt_of_mem (nodup_keys hentries hkind) hkind
  | _ => trivial

/-- The entries of a wire form fill a draft from which the record is built. -/
theorem exists_drafts :
    ∃ draft, shape.Drafts entries draft ∧ shape.record.build draft = .ok record := by
  have hreading := reading_wireForm (present_target shape) record
  rw [hentries, reading_of_isNamed (isNamed_of_hasKind hentries hkind),
    Reader.recordOfEntries_readings_iff] at hreading
  obtain ⟨draft, hknown, hother⟩ :=
    exists_draft_of_readable (readable_of_describes shape hreading.known)
  exact ⟨draft, ⟨hknown, hother⟩,
    (build_eq_ok_iff Json.functional_meaning shape hknown).2 hreading.known⟩

end Written

/-- A slot has one entry at most, and that has its key. -/
theorem eq_of_mem_entriesAt {entry : String × Json} (h : entry ∈ draft.entriesAt slot) :
    entry.1 = slot.label ∧ draft.entriesAt slot = [entry] := by
  cases hget : draft.get slot with
  | error fault => simp [Draft.entriesAt, hget] at h
  | ok value =>
      rw [Draft.entriesAt_of_get hget] at h ⊢
      by_cases hnull : wireForm slot.target value = .null
      · rw [hnull] at h
        cases h
      · rw [writtenEntry_of_ne_null hnull] at h ⊢
        obtain rfl := List.mem_singleton.1 h
        exact ⟨rfl, rfl⟩

theorem kindEntries_key {entry : String × Json} (h : entry ∈ shape.kindEntries) :
    entry.1 = kindKey := by
  cases shape with
  | variant kind => rw [List.mem_singleton.1 h]
  | _ => cases h

theorem label_ne_kindKey (hslot : slot ∈ shape.record.slots) : slot.label ≠ kindKey := by
  intro hlabel
  have hmem := List.mem_map_of_mem (f := Slot.label) hslot
  rw [shape.map_label_slots, hlabel] at hmem
  exact kindKey_not_mem_keys shape hmem

/-- What a draft is written as around the entry of one slot. -/
theorem written_around
    (hentries : wireForm shape.target record = .object (before ++ (slot.label, tree) :: after))
    (hbuild : shape.record.build draft = .ok record) (hslot : slot ∈ shape.record.slots)
    {draft' : Draft} (hsame : ∀ other, other ≠ slot → draft' other = draft other) :
    shape.kindEntries ++ shape.record.slots.flatMap draft'.entriesAt =
      before ++ (draft'.entriesAt slot ++ after) := by
  obtain ⟨front, back, hslots⟩ := List.append_of_mem hslot
  have hdistinct : shape.record.slots.Nodup := List.Nodup.of_map _ shape.nodup_labels
  rw [hslots, List.nodup_middle, List.nodup_cons, List.mem_append, not_or] at hdistinct
  have hwritten := wireForm_of_build shape hbuild
  rw [hentries, Json.object.injEq] at hwritten
  have hkind : (slot.label, tree) ∉ shape.kindEntries := fun hmem =>
    label_ne_kindKey hslot (kindEntries_key hmem)
  have hothers (slots : List Slot) (hsub : slots ⊆ shape.record.slots) (hnot : slot ∉ slots) :
      (slot.label, tree) ∉ slots.flatMap draft.entriesAt := by
    intro hmem
    obtain ⟨other, hother, hentry⟩ := List.mem_flatMap.1 hmem
    have hne : other ≠ slot := by
      rintro rfl
      exact hnot hother
    exact Shape.label_ne hslot (hsub hother) hne (eq_of_mem_entriesAt hentry).1
  have hfront := hothers front (by simp [hslots]) hdistinct.1.1
  have hback := hothers back (by simp [hslots]) hdistinct.1.2
  have hself : draft.entriesAt slot = [(slot.label, tree)] := by
    have hmem : (slot.label, tree) ∈ before ++ (slot.label, tree) :: after := by simp
    rw [hwritten, hslots, List.flatMap_append, List.flatMap_cons] at hmem
    simp only [List.mem_append, hkind, hfront, hback, false_or, or_false] at hmem
    exact (eq_of_mem_entriesAt hmem).2
  have hkept {slots : List Slot} (hnot : slot ∉ slots) :
      slots.flatMap draft'.entriesAt = slots.flatMap draft.entriesAt :=
    List.flatMap_congr fun other hother => Draft.entriesAt_congr (hsame other fun heq =>
      hnot (heq ▸ hother))
  rw [hslots, List.flatMap_append, List.flatMap_cons, hself, ← List.append_assoc,
    List.singleton_append, eq_comm, List.append_cons_inj_of_notMem (by simp [hkind, hfront]) hback]
    at hwritten
  rw [hslots, List.flatMap_append, List.flatMap_cons, hkept hdistinct.1.1, hkept hdistinct.1.2,
    ← hwritten.1, ← hwritten.2.2, List.append_assoc]

end Objects

section Outcomes

variable {shape : Shape} {record : shape.target.Value} {before after : List (String × Json)}
  {draft : Draft} {slot : Slot} {tree : Json}

/-- A record is built, or it lacks a slot. -/
theorem exists_build_of_get (shape : Shape)
    (h : ∀ slot ∈ shape.record.slots, ∃ found, draft.get slot = .ok found) :
    ∃ record, shape.record.build draft = .ok record := by
  cases hbuild : shape.record.build draft with
  | ok record => exact ⟨record, rfl⟩
  | error fault =>
      obtain ⟨slot, hslot, hfault⟩ := exists_get_of_build_eq_error shape hbuild
      obtain ⟨found, hfound⟩ := h slot hslot
      cases hfault.symm.trans hfound

/-- A record that lacks one slot is not built for that reason. -/
theorem build_eq_error {fault : Fault} (hslot : slot ∈ shape.record.slots)
    (hfault : draft.get slot = .error fault)
    (hothers : ∀ other ∈ shape.record.slots, other ≠ slot → ∃ found, draft.get other = .ok found) :
    shape.record.build draft = .error fault := by
  cases hbuild : shape.record.build draft with
  | ok record =>
      obtain ⟨found, hfound⟩ := get_of_build shape hbuild slot hslot
      cases hfault.symm.trans hfound
  | error fault' =>
      obtain ⟨other, hother, hfault'⟩ := exists_get_of_build_eq_error shape hbuild
      by_cases hsame : other = slot
      · subst hsame
        cases hfault.symm.trans hfault'
        rfl
      · obtain ⟨found, hfound⟩ := hothers other hother hsame
        cases hfault'.symm.trans hfound

/-- The other slots keep their values. -/
theorem get_of_same {draft' : Draft} (hbuild : shape.record.build draft = .ok record)
    (hsame : ∀ other, other ≠ slot → draft' other = draft other) :
    ∀ other ∈ shape.record.slots, other ≠ slot → ∃ found, draft'.get other = .ok found := by
  intro other hother hne
  rw [Draft.get_congr (hsame other hne)]
  exact get_of_build shape hbuild other hother

/-- A record with another value in one slot is written with that value there. -/
theorem exists_build_of_same
    (hentries : wireForm shape.target record = .object (before ++ (slot.label, tree) :: after))
    (hbuild : shape.record.build draft = .ok record) (hslot : slot ∈ shape.record.slots)
    {draft' : Draft} (hsame : ∀ other, other ≠ slot → draft' other = draft other)
    {value : slot.Value} (hself : draft'.get slot = .ok value) :
    ∃ record', shape.record.build draft' = .ok record' ∧
      wireForm shape.target record' =
        .object (before ++ (writtenEntry slot.label (wireForm slot.target value) ++ after)) := by
  have hget : ∀ other ∈ shape.record.slots, ∃ found, draft'.get other = .ok found := by
    intro other hother
    by_cases hne : other = slot
    · subst hne
      exact ⟨value, hself⟩
    · exact get_of_same hbuild hsame other hother hne
  obtain ⟨record', hrecord⟩ := exists_build_of_get shape hget
  refine ⟨record', hrecord, ?_⟩
  rw [wireForm_of_build shape hrecord, written_around hentries hbuild hslot hsame,
    Draft.entriesAt_of_get hself]

/-- Other entries than the kind leave the kind alone. -/
theorem isNamed_around (hslot : slot ∈ shape.record.slots) (tree' : Json)
    (h : shape.IsNamed (before ++ (slot.label, tree) :: after)) :
    shape.IsNamed (before ++ after) ∧
      shape.IsNamed (before ++ (slot.label, tree') :: after) := by
  cases shape with
  | variant kind =>
      have hne := label_ne_kindKey hslot
      rw [Shape.IsNamed, valuesAt_around_of_ne hne] at h
      exact ⟨h, (valuesAt_around_of_ne hne).trans h⟩
  | _ => exact ⟨trivial, trivial⟩

variable
  (hentries : wireForm shape.target record = .object (before ++ (slot.label, tree) :: after))
  (hkind : shape.HasKind (before ++ (slot.label, tree) :: after))
  (hslot : slot ∈ shape.record.slots)

include hentries hkind hslot

/-- Without the entry of a required slot the record is incomplete. -/
theorem reading_of_removed_required (hdefault : slot.default? = none) :
    (Json.object (before ++ after)).reading shape.target = .error (.missingField slot.label) := by
  obtain ⟨draft, hdrafts, hbuild⟩ := exists_drafts hentries hkind
  have hnamed := (isNamed_around hslot tree (isNamed_of_hasKind hentries hkind)).1
  rw [reading_of_isNamed hnamed, (hdrafts.without hslot).recordOfEntries]
  refine build_eq_error hslot ?_ (get_of_same hbuild fun other hne => draft.unset_of_ne hne)
  rw [Draft.get, draft.unset_self, hdefault]
  rfl

/-- Without the entry of any other slot the record has the default there. -/
theorem exists_reading_of_removed {default : slot.Value} (hdefault : slot.default? = some default) :
    ∃ record', (Json.object (before ++ after)).reading shape.target = .ok record' ∧
      wireForm shape.target record' =
        .object (before ++ (writtenEntry slot.label (wireForm slot.target default) ++ after)) := by
  obtain ⟨draft, hdrafts, hbuild⟩ := exists_drafts hentries hkind
  have hnamed := (isNamed_around hslot tree (isNamed_of_hasKind hentries hkind)).1
  have hself : (draft.unset slot).get slot = .ok default := by
    rw [Draft.get, draft.unset_self, hdefault]
    rfl
  obtain ⟨record', hrecord, hwritten⟩ :=
    exists_build_of_same hentries hbuild hslot (fun _ hne => draft.unset_of_ne hne) hself
  refine ⟨record', ?_, hwritten⟩
  rw [reading_of_isNamed hnamed, (hdrafts.without hslot).recordOfEntries, hrecord]

/-- With another value in the entry the record has that value there. -/
theorem exists_reading_of_replaced (value : slot.Value) :
    ∃ record', (∀ tree' : Json, tree'.reading slot.target = .ok value →
        (Json.object (before ++ (slot.label, tree') :: after)).reading shape.target =
          .ok record') ∧
      wireForm shape.target record' =
        .object (before ++ (writtenEntry slot.label (wireForm slot.target value) ++ after)) := by
  obtain ⟨draft, hdrafts, hbuild⟩ := exists_drafts hentries hkind
  have hself : (draft.set slot value).get slot = .ok value := by
    rw [Draft.get, draft.set_self]
    rfl
  obtain ⟨record', hrecord, hwritten⟩ :=
    exists_build_of_same hentries hbuild hslot (fun _ hne => draft.set_of_ne value (Ne.symm hne))
      hself
  refine ⟨record', fun tree' htree => ?_, hwritten⟩
  have hnamed := (isNamed_around hslot tree' (isNamed_of_hasKind hentries hkind)).2
  rw [reading_of_isNamed hnamed,
    (hdrafts.replaced hslot (Json.reading_eq_ok_iff.1 htree)).recordOfEntries, hrecord]

/-- A fault in the entry is the fault of the record. -/
theorem reading_of_faulty {tree' : Json} {fault : Fault}
    (hfault : tree'.reading slot.target = .error fault) :
    (Json.object (before ++ (slot.label, tree') :: after)).reading shape.target =
      .error fault := by
  obtain ⟨draft, hdrafts, -⟩ := exists_drafts hentries hkind
  have hnamed := (isNamed_around hslot tree' (isNamed_of_hasKind hentries hkind)).2
  have hnodup := nodup_keys hentries hkind
  have hbefore : (before.map Prod.fst).Nodup := by
    rw [List.map_append] at hnodup
    exact hnodup.of_append_left
  obtain ⟨front, hfront⟩ := hdrafts.exists_of_subset hnodup (List.subset_append_left _ _) hbefore
  have hnone := (hdrafts.once hslot).1
  rw [valuesAt_append, List.append_eq_nil_iff] at hnone
  rw [reading_of_isNamed hnamed]
  refine hfront.recordOfEntries_eq_error ?_
  rw [Reading.fillEntry, (hfront.slotFor_eq hslot).1 hnone.1]
  simp [bind, Except.bind, hfault]

/-- An entry that is repeated anywhere in the record is refused. -/
theorem reading_of_repeated {front back : List (String × Json)}
    (hsplit : front ++ back = before ++ (slot.label, tree) :: after) :
    (Json.object (front ++ (slot.label, tree) :: back)).reading shape.target =
      .error (.duplicateField slot.label) := by
  obtain ⟨draft, hdrafts, -⟩ := exists_drafts hentries hkind
  have hnamed : shape.IsNamed (front ++ (slot.label, tree) :: back) := by
    have h := isNamed_of_hasKind hentries hkind
    rw [← hsplit] at h
    cases shape with
    | variant kind => exact (valuesAt_around_of_ne (label_ne_kindKey hslot)).trans h
    | _ => trivial
  have hnodup := nodup_keys hentries hkind
  rw [← hsplit] at hnodup hdrafts
  obtain ⟨part, rest, heq, hpart, hsubset, hdistinct⟩ :=
    exists_repeated (show (slot.label, tree) ∈ front ++ back by simp [hsplit]) hnodup
  obtain ⟨filled, hfilled⟩ := hdrafts.exists_of_subset hnodup hsubset hdistinct
  rw [reading_of_isNamed hnamed, heq]
  refine hfilled.recordOfEntries_eq_error ?_
  rw [Reading.fillEntry, (hfilled.slotFor_eq hslot).2 ?_]
  · rfl
  · exact List.mem_map_of_mem hpart

end Outcomes

section Kinds

variable {kind : Kind} {type : GoType} {before after : List (String × Json)} {tree : Json}

/-- What the kind is among entries is decided by those that name it. -/
theorem reading_type_of_kindOfEntries {entries : List (String × Json)} {fault : Fault}
    (h : Reading.kindOfEntries (entryReadings entries) = .error fault) :
    (Json.object entries).reading .type = .error fault := by
  change Reading.kindOfEntries (entryReadings entries) >>= _ = _
  rw [h]
  rfl

variable (hentries : type.toJson = .object (before ++ (kindKey, tree) :: after))

include hentries

/-- The entry of the kind names it, and there is no other. -/
theorem exists_kind_of_entry : ∃ kind : Kind, tree = .string kind.name ∧
    (Shape.variant kind).HasKind (before ++ (kindKey, tree) :: after) ∧
    valuesAt (before ++ after) kindKey = [] := by
  obtain ⟨kind, rest, heq, -⟩ := exists_kind_of_type hentries
  have hkind : (Shape.variant kind).HasKind (before ++ (kindKey, tree) :: after) := by
    rw [heq]
    exact List.mem_cons_self
  have hnodup := nodup_keys (show wireForm (Shape.variant kind).target type = _ from hentries) hkind
  have htree := valuesAt_of_mem hnodup (show (kindKey, tree) ∈ _ by simp)
  have hname := (valuesAt_of_mem hnodup hkind).symm.trans htree
  rw [valuesAt_around_self, List.append_eq_singleton_iff] at htree
  rcases htree with ⟨hbefore, hafter⟩ | ⟨-, hafter⟩
  · exact ⟨kind, (List.cons.inj hname).1.symm, hkind,
      by rw [valuesAt_append, hbefore, (List.cons.inj hafter).2]; rfl⟩
  · cases hafter

/-- Without its kind a type is incomplete. -/
theorem reading_of_removed_kind :
    (Json.object (before ++ after)).reading .type = .error (.missingField kindKey) := by
  obtain ⟨-, -, -, hnone⟩ := exists_kind_of_entry hentries
  have hvalues := valuesAt_map Json.reading (before ++ after) kindKey
  rw [hnone, ← entryReadings_eq_map] at hvalues
  refine reading_type_of_kindOfEntries (bind_eq_error_iff.2 (.inr ⟨none, ?_, rfl⟩))
  exact Reading.foldlM_kind_eq_ok_iff.2 (.inl ⟨hvalues, rfl⟩)

/-- A kind that is repeated anywhere is refused. -/
theorem reading_of_repeated_kind {front back : List (String × Json)}
    (hsplit : front ++ back = before ++ (kindKey, tree) :: after) :
    (Json.object (front ++ (kindKey, tree) :: back)).reading .type =
      .error (.duplicateField kindKey) := by
  obtain ⟨kind, htree, hkind, -⟩ := exists_kind_of_entry hentries
  have hnodup := nodup_keys (show wireForm (Shape.variant kind).target type = _ from hentries) hkind
  rw [← hsplit] at hnodup
  obtain ⟨part, rest, heq, hpart, -, hdistinct⟩ :=
    exists_repeated (show (kindKey, tree) ∈ front ++ back by simp [hsplit]) hnodup
  have hvalues := valuesAt_map Json.reading part kindKey
  rw [valuesAt_of_mem hdistinct hpart] at hvalues
  refine reading_type_of_kindOfEntries (bind_eq_error_iff.2 (.inl ?_))
  rw [heq, entryReadings_eq_map, List.map_append, List.foldlM_append]
  refine bind_eq_error_iff.2 (.inr ⟨some kind, Reading.foldlM_kind_eq_ok_iff.2
    (.inr ⟨rfl, tree.reading, kind, hvalues, ?_, rfl⟩), rfl⟩)
  rw [htree]
  exact Reading.kind_ofName_eq_ok_iff.2 rfl

end Kinds

end InterfaceProbe
