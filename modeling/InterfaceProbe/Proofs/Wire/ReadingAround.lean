/-
# What is read around a value

A value in the text of a report is read by itself, and what is read around it does
not depend on it.  If the text is read with one value in a place, then with any other
value it is read exactly when that value is, and the two results differ in what
stands at the end of the way.

The text may break off being read while it goes by and be read from a tree, from
a type on.  What is asked of the value changes with that, but not on the value.
-/

import InterfaceProbe.Proofs.Wire.PartReading
import InterfaceProbe.Proofs.Wire.TextPlaces

namespace InterfaceProbe

open Grammar Reader

section Drafts

variable {means : Bytes → Meaning} {ignored : Bytes → Prop} {shape : Shape} {slot : Slot}
  {draft : Draft} {record : shape.target.Value} {gap : Gap} {text : Bytes}

/-- A record that is built is built with any other value in a slot. -/
theorem exists_build_of_set (slot : Slot) (hbuild : shape.record.build draft = .ok record)
    (found : slot.Value) :
    ∃ record', shape.record.build (draft.set slot found) = .ok record' := by
  refine exists_build_of_get shape fun other hother => ?_
  by_cases hsame : other = slot
  · subst hsame
    refine ⟨found, ?_⟩
    rw [Draft.get, draft.set_self]
    rfl
  · have hkept : ∀ other, other ≠ slot → draft.set slot found other = draft other :=
      fun other hne => draft.set_of_ne found (Ne.symm hne)
    exact get_of_same hbuild hkept other hother hsame

/-- A record is written with the value of a slot among entries that do not depend on it. -/
theorem exists_wireForm_of_set (draft : Draft) (hslot : slot ∈ shape.record.slots) :
    ∃ before after, ∀ (found : slot.Value) (record : shape.target.Value),
      shape.record.build (draft.set slot found) = .ok record →
      wireForm slot.target found ≠ .null →
      wireForm shape.target record =
        .object (before ++ (slot.label, wireForm slot.target found) :: after) := by
  obtain ⟨front, back, hslots⟩ := List.append_of_mem hslot
  have hdistinct : shape.record.slots.Nodup := List.Nodup.of_map _ shape.nodup_labels
  rw [hslots, List.nodup_middle, List.nodup_cons, List.mem_append, not_or] at hdistinct
  refine ⟨shape.kindEntries ++ front.flatMap draft.entriesAt, back.flatMap draft.entriesAt,
    fun found record hbuild hnull => ?_⟩
  have hkept {slots : List Slot} (hnot : slot ∉ slots) :
      slots.flatMap (draft.set slot found).entriesAt = slots.flatMap draft.entriesAt := by
    refine List.flatMap_congr fun other hother => Draft.entriesAt_congr (draft.set_of_ne found ?_)
    rintro rfl
    exact hnot hother
  have hself : (draft.set slot found).entriesAt slot =
      [(slot.label, wireForm slot.target found)] := by
    have hget : (draft.set slot found).get slot = .ok found := by
      rw [Draft.get, draft.set_self]
      rfl
    rw [Draft.entriesAt_of_get hget, writtenEntry_of_ne_null hnull]
  rw [wireForm_of_build shape hbuild, hslots, List.flatMap_append, List.flatMap_cons, hself,
    hkept hdistinct.1.1, hkept hdistinct.1.2]
  simp

/-- Entries that fill a draft fill it with another value where one of them has one. -/
theorem slotRead_set {before after : List (String × Bytes)} {other : Bytes}
    (hslot : slot ∈ shape.record.slots)
    (hread : ∀ slot' ∈ shape.record.slots,
      SlotRead means (before ++ (slot.label, text) :: after) slot' none (draft slot'))
    {found : slot.Value} (hfound : means other slot.target found) :
    ∀ slot' ∈ shape.record.slots, SlotRead means (before ++ (slot.label, other) :: after) slot' none
      (draft.set slot found slot') := by
  intro slot' hslot'
  by_cases hsame : slot' = slot
  · subst hsame
    refine .inr ⟨rfl, other, found, ?_, hfound, draft.set_self slot' found⟩
    rcases hread slot' hslot' with ⟨hnil, -⟩ | ⟨-, x, -, hx, -, -⟩
    · rw [valuesAt_around_self] at hnil
      exact absurd hnil (by simp)
    · rw [valuesAt_around_self, List.append_eq_singleton_iff] at hx
      rw [valuesAt_around_self]
      rcases hx with ⟨hbefore, hafter⟩ | ⟨-, hafter⟩
      · rw [hbefore, (List.cons.inj hafter).2]
        rfl
      · cases hafter
  · have hlabel := Shape.label_ne hslot hslot' hsame
    have hkept := hread slot' hslot'
    rw [SlotRead, valuesAt_around_of_ne hlabel] at hkept
    rwa [SlotRead, valuesAt_around_of_ne hlabel, draft.set_of_ne found (Ne.symm hsame)]

/-- A record with one value left open is read exactly when what is put there is, and is then built
with it. -/
theorem exists_draft_of_gap (hmeans : Functional means) (hslot : slot ∈ shape.record.slots)
    (hkey : gap.key? shape.keys = some slot.label)
    (h : IsRecord shape ignored means (gap.fill text) record) :
    ∃ draft, (∃ record', shape.record.build draft = .ok record') ∧
      ∀ other value, IsRecord shape ignored means (gap.fill other) value ↔
        ∃ found, means other slot.target found ∧
          shape.record.build (draft.set slot found) = .ok value := by
  obtain ⟨before, after, hmembers⟩ := Gap.exists_members hkey
  have hdescribes := h.known
  rw [hmembers] at hdescribes
  obtain ⟨draft, hread, -⟩ := exists_draft_of_readable (readable_of_describes shape hdescribes)
  have hrecord {other : Bytes} {found : slot.Value} (hfound : means other slot.target found)
      {value : shape.target.Value}
      (hvalue : shape.record.build (draft.set slot found) = .ok value) :
      IsRecord shape ignored means (gap.fill other) value := by
    refine ⟨(Gap.fits_iff text).2 h.fits, fun member hmember hunknown => ?_, ?_⟩
    · have hlabel : slot.label ∈ shape.keys := by
        rw [← shape.map_label_slots]
        exact List.mem_map_of_mem hslot
      refine h.unknown member ?_ hunknown
      rw [hmembers, List.mem_append, List.mem_cons] at hmember ⊢
      rcases hmember with hmember | rfl | hmember
      · exact .inl hmember
      · exact absurd hlabel hunknown
      · exact .inr (.inr hmember)
    · rw [hmembers]
      exact (build_eq_ok_iff hmeans shape (slotRead_set hslot hread hfound)).1 hvalue
  refine ⟨draft, ⟨record, (build_eq_ok_iff hmeans shape hread).2 hdescribes⟩,
    fun other value => Iff.intro (fun hother => ?_) ?_⟩
  · have hvalue := hother.known
    rw [hmembers] at hvalue
    have hmem : (slot.label, other) ∈ before ++ (slot.label, other) :: after := by simp
    obtain ⟨x, found, hx, hfound⟩ : ∃ x found,
        valuesAt (before ++ (slot.label, other) :: after) slot.label = [x] ∧
          means x slot.target found := by
      rcases readable_of_describes shape hvalue slot hslot with hnil | hx
      · have hin := mem_valuesAt_of_mem hmem
        rw [hnil] at hin
        cases hin
      · exact hx
    have hin := mem_valuesAt_of_mem hmem
    rw [hx, List.mem_singleton] at hin
    subst hin
    exact ⟨found, hfound,
      (build_eq_ok_iff hmeans shape (slotRead_set hslot hread hfound)).2 hvalue⟩
  · rintro ⟨found, hfound, hvalue⟩
    exact hrecord hfound hvalue

end Drafts

section Readings

variable {whole middle part : Bytes → Meaning} {target mid inner : Target}
  {frames innerFrames : List Frame} {outerFront outerBack front back text : Bytes}

/-- Between the two ends every value is read as a part, and nothing else depends on it: what is read
of the whole has what is read of the part in the frames. -/
def ReadsAround (whole : Bytes → Meaning) (target : Target) (frames : List Frame)
    (front back : Bytes) (part : Bytes → Meaning) (inner : Target) : Prop :=
  ∃ put : inner.Value → target.Value,
    (∀ text, WellFormed text → ∀ value, whole (front ++ (text ++ back)) target value ↔
      ∃ found, part text inner found ∧ value = put found) ∧
    ∀ found, wireForm inner found ≠ .null →
      wireForm target (put found) = plug frames (wireForm inner found)

theorem ReadsAround.refl (whole : Bytes → Meaning) (target : Target) :
    ReadsAround whole target [] [] [] whole target := by
  refine ⟨id, fun text _ value => ?_, fun _ _ => rfl⟩
  simp

theorem plug_ne_null {tree : Json} (h : tree ≠ .null) : plug frames tree ≠ .null := by
  cases frames with
  | nil => exact h
  | cons frame frames => exact (frame.isContainer_around _).ne_null

theorem ReadsAround.exists_inside (h : ReadsAround whole target frames front back part inner)
    (htext : WellFormed text) {value : target.Value}
    (hread : whole (front ++ (text ++ back)) target value) : ∃ found, part text inner found := by
  rcases h with ⟨put, hiff, -⟩
  obtain ⟨found, hfound, -⟩ := (hiff text htext value).1 hread
  exact ⟨found, hfound⟩

theorem append_around (outerFront outerBack front back text : Bytes) :
    outerFront ++ front ++ (text ++ (back ++ outerBack)) =
      outerFront ++ ((front ++ (text ++ back)) ++ outerBack) := by
  simp only [List.append_assoc]

theorem ReadsAround.trans
    (houter : ReadsAround whole target frames outerFront outerBack middle mid)
    (hinner : ReadsAround middle mid innerFrames front back part inner)
    (hwell : ∀ text, WellFormed text → WellFormed (front ++ (text ++ back))) :
    ReadsAround whole target (frames ++ innerFrames) (outerFront ++ front) (back ++ outerBack) part
      inner := by
  rcases houter with ⟨put, hread, hwritten⟩
  rcases hinner with ⟨putInner, hreadInner, hwrittenInner⟩
  refine ⟨fun found => put (putInner found), fun text htext value => ?_, fun found hnull => ?_⟩
  · rw [append_around, hread _ (hwell text htext)]
    apply Iff.intro
    · rintro ⟨found, hfound, rfl⟩
      obtain ⟨last, hlast, rfl⟩ := (hreadInner text htext found).1 hfound
      exact ⟨last, hlast, rfl⟩
    · rintro ⟨last, hlast, rfl⟩
      exact ⟨putInner last, (hreadInner text htext _).2 ⟨last, hlast, rfl⟩, rfl⟩
  · have hinside := hwrittenInner found hnull
    rw [hwritten _ (by rw [hinside]; exact plug_ne_null hnull), hinside, plug, plug, plug,
      List.foldr_append]

/-- A list is read around an item. -/
theorem exists_readsAround_item (hpart : Functional part) {before after : List Bytes}
    (hiff : ∀ text, WellFormed text → ∀ values : List target.Value,
      whole (front ++ (text ++ back)) (.sequence target) values ↔
        List.Forall₂ (fun item value => part item target value) (before ++ text :: after) values)
    (htext : WellFormed text) {values : List target.Value}
    (h : whole (front ++ (text ++ back)) (.sequence target) values) :
    ∃ frame : Frame, frame.step = .item before.length ∧
      ReadsAround whole (.sequence target) [frame] front back part target := by
  obtain ⟨first, value, last, rfl, hlength, -, hothers⟩ :=
    exists_split_of_forall₂ ((hiff text htext values).1 h)
  refine ⟨.item (first.map (wireForm target)) (last.map (wireForm target)), ?_,
    fun found => first ++ found :: last, fun other hother values => ?_, fun found _ => ?_⟩
  · rw [Frame.step, List.length_map, hlength]
  · rw [hiff other hother]
    apply Iff.intro
    · intro hvalues
      obtain ⟨_, found, _, -, -, hfound, -⟩ := exists_split_of_forall₂ hvalues
      have hunique : Relator.RightUnique fun item (value : target.Value) =>
          part item target value := fun _ _ _ hx hy => hpart hx hy
      exact ⟨found, hfound,
        List.right_unique_forall₂' hunique hvalues (hothers other found hfound)⟩
    · rintro ⟨found, hfound, rfl⟩
      exact hothers other found hfound
  · simp [wireForm, plug, Frame.around]

/-- A record is read around the value of a slot. -/
theorem exists_readsAround_slot (hpart : Functional part) {ignored : Bytes → Prop} {shape : Shape}
    {slot : Slot} {gap : Gap} (hslot : slot ∈ shape.record.slots)
    (hkey : gap.key? shape.keys = some slot.label)
    (hiff : ∀ text, WellFormed text → ∀ value, whole (front ++ (text ++ back)) shape.target value ↔
      IsRecord shape ignored part (gap.fill text) value)
    (htext : WellFormed text) {value : shape.target.Value}
    (h : whole (front ++ (text ++ back)) shape.target value) :
    ∃ frame : Frame, frame.step = .entry slot.label ∧
      ReadsAround whole shape.target [frame] front back part slot.target := by
  obtain ⟨draft, ⟨record, hrecord⟩, hrecords⟩ :=
    exists_draft_of_gap hpart hslot hkey ((hiff text htext value).1 h)
  obtain ⟨before, after, hwritten⟩ := exists_wireForm_of_set draft hslot
  choose put hput using exists_build_of_set slot hrecord
  refine ⟨.entry before slot.label after, rfl, put, fun other hother value => ?_,
    fun found hnull => hwritten found (put found) (hput found) hnull⟩
  rw [hiff other hother, hrecords]
  apply Iff.intro
  · rintro ⟨found, hfound, hvalue⟩
    exact ⟨found, hfound, Except.ok.inj (hvalue.symm.trans (hput found))⟩
  · rintro ⟨found, hfound, rfl⟩
    exact ⟨found, hfound, hput found⟩

end Readings

section Ways

variable {inType : Bool} {levels : Nat} {target inner : Target} {front back text : Bytes}

theorem ReadsAround.congr {whole other part : Bytes → Meaning} {frames : List Frame}
    (h : ReadsAround other target frames front back part inner)
    (hsame : ∀ text, WellFormed text → ∀ value,
      whole (front ++ (text ++ back)) target value ↔ other (front ++ (text ++ back)) target value) :
    ReadsAround whole target frames front back part inner := by
  rcases h with ⟨put, hread, hwritten⟩
  exact ⟨put, fun text htext value => (hsame text htext value).trans (hread text htext value),
    hwritten⟩

theorem exists_level_iff {property : Nat → Prop} :
    (∃ inner, levels + 1 = inner + 1 ∧ property inner) ↔ property levels := by
  simp

/-- Around an item of a list. -/
theorem readsAround_item {before after : List Bytes}
    (hform : ∀ text, WellFormed text →
      FormOf (.items (before ++ text :: after)) (front ++ (text ++ back)))
    (htext : WellFormed text) {values : List target.Value}
    (h : ReadsAs inType levels (front ++ (text ++ back)) (.sequence target) values) :
    ∃ (frame : Frame) (inLevels : Nat), frame.step = .item before.length ∧
      ReadsAround (ReadsAs inType levels) (.sequence target) [frame] front back
        (ReadsAs inType inLevels) target := by
  cases inType with
  | true =>
      obtain ⟨inLevels, rfl, -⟩ := (treeText_sequence_iff (hform text htext)).1 h
      obtain ⟨frame, hstep, haround⟩ := exists_readsAround_item (functional_treeText inLevels)
        (fun other hother _ => (treeText_sequence_iff (hform other hother)).trans exists_level_iff)
        htext h
      exact ⟨frame, inLevels, hstep, haround⟩
  | false =>
      obtain ⟨inLevels, rfl, -⟩ := (textMeans_sequence_iff (hform text htext)).1 h
      obtain ⟨frame, hstep, haround⟩ := exists_readsAround_item (functional_textMeans inLevels)
        (fun other hother _ => (textMeans_sequence_iff (hform other hother)).trans exists_level_iff)
        htext h
      exact ⟨frame, inLevels, hstep, haround⟩

section Records

variable {shape : Shape} {gap : Gap} {slot : Slot} (hgap : gap.LiesIn front back shape)
  (htext : WellFormed text) {value : shape.target.Value}

include hgap htext

/-- A record that is read from a tree wherever it stands is read from it with any value in it. -/
theorem textMeans_iff_treeText (hshape : shape.isBuffered = true)
    (h : TextMeans levels (front ++ (text ++ back)) shape.target value) :
    ∀ other, WellFormed other → ∀ value,
      TextMeans levels (front ++ (other ++ back)) shape.target value ↔
        TreeText levels (front ++ (other ++ back)) shape.target value := by
  intro other hother value'
  cases shape with
  | variant kind =>
      rcases hgap with ⟨tag, -, hwhole⟩
      obtain ⟨_, hform, htagged⟩ := hwhole text htext
      obtain ⟨_, hformOther, htaggedOther⟩ := hwhole other hother
      have hnumber := ((textMeans_type_iff hform htagged).1 h).2
      rw [textMeans_type_iff hformOther htaggedOther]
      exact and_iff_left hnumber
  | field => cases levels <;> exact Iff.rfl
  | _ => cases hshape

variable (hslot : slot ∈ shape.record.slots) (hkey : gap.key? shape.keys = some slot.label)

include hslot hkey

theorem readsAround_slot_of_tree
    (h : TreeText levels (front ++ (text ++ back)) shape.target value) :
    ∃ (frame : Frame) (inLevels : Nat), frame.step = .entry slot.label ∧
      ReadsAround (TreeText levels) shape.target [frame] front back (TreeText inLevels)
        slot.target := by
  obtain ⟨inLevels, rfl, -⟩ := (treeText_record_iff (hgap.recordForm htext)).1 h
  obtain ⟨frame, hstep, haround⟩ := exists_readsAround_slot (functional_treeText inLevels) hslot
    hkey (fun _ hother _ => (treeText_record_iff (hgap.recordForm hother)).trans exists_level_iff)
    htext h
  exact ⟨frame, inLevels, hstep, haround⟩

/-- Around the value of a slot. -/
theorem readsAround_slot
    (h : ReadsAs inType levels (front ++ (text ++ back)) shape.target value) :
    ∃ (frame : Frame) (inside : Bool) (inLevels : Nat), frame.step = .entry slot.label ∧
      ReadsAround (ReadsAs inType levels) shape.target [frame] front back
        (ReadsAs inside inLevels) slot.target := by
  cases inType with
  | true =>
      obtain ⟨frame, inLevels, hstep, haround⟩ :=
        readsAround_slot_of_tree hgap htext hslot hkey h
      exact ⟨frame, true, inLevels, hstep, haround⟩
  | false =>
      by_cases hshape : shape.isBuffered = true
      · have hsame := textMeans_iff_treeText hgap htext hshape h
        obtain ⟨frame, inLevels, hstep, haround⟩ :=
          readsAround_slot_of_tree hgap htext hslot hkey ((hsame text htext value).1 h)
        exact ⟨frame, true, inLevels, hstep, haround.congr hsame⟩
      · have hstreamed : shape.isBuffered = false := Bool.eq_false_iff.2 hshape
        have hform {other : Bytes} (hother : WellFormed other) :=
          (recordForm_iff (Shape.target_ne_type hstreamed)).1 (hgap.recordForm hother)
        obtain ⟨inLevels, rfl, -⟩ := (textMeans_record_iff hstreamed (hform htext)).1 h
        obtain ⟨frame, hstep, haround⟩ := exists_readsAround_slot (functional_textMeans inLevels)
          hslot hkey
          (fun _ hother _ => (textMeans_record_iff hstreamed (hform hother)).trans exists_level_iff)
          htext h
        exact ⟨frame, false, inLevels, hstep, haround⟩

end Records

/-- What is present is read as what may be absent. -/
theorem readsAs_optional_iff (hnull : text ≠ nullText) {found : Option target.Value} :
    ReadsAs inType levels text (.optional target) found ↔
      ∃ present, found = some present ∧ ReadsAs inType levels text target present := by
  apply Iff.intro
  · intro h
    cases inType with
    | true =>
        rcases h with ⟨tree, htree, hdepth, hmeaning⟩
        cases tree with
        | null =>
            cases htree
            exact absurd rfl hnull
        | _ =>
            obtain ⟨present, hfound, hpresent⟩ := hmeaning
            exact ⟨present, hfound, _, htree, hdepth, hpresent⟩
    | false =>
        have hcases : text = nullText ∧ found = none ∨ text ≠ nullText ∧
            ∃ present, found = some present ∧ TextMeans levels text target present := by
          cases levels <;> exact h
        rcases hcases with ⟨heq, -⟩ | ⟨-, hpresent⟩
        · exact absurd heq hnull
        · exact hpresent
  · rintro ⟨present, rfl, hpresent⟩
    exact hpresent.optional hnull

/-- What is read around a value depends on the value only, and has it at the end of the way. -/
theorem StandsIn.exists_readsAround {way : List Step}
    (hstands : StandsIn target way front back inner) (htext : WellFormed text)
    {value : target.Value}
    (h : ReadsAs inType levels (front ++ (text ++ back)) target value) :
    ∃ (frames : List Frame) (inside : Bool) (inLevels : Nat), frames.map Frame.step = way ∧
      ReadsAround (ReadsAs inType levels) target frames front back (ReadsAs inside inLevels)
        inner := by
  induction hstands generalizing inType levels with
  | here => exact ⟨[], inType, levels, rfl, .refl _ _⟩
  | present hinner ih =>
      have hnull {other : Bytes} (hother : WellFormed other) := hinner.ne_null hother
      obtain ⟨present, rfl, hpresent⟩ := (readsAs_optional_iff (hnull htext)).1 h
      obtain ⟨frames, inside, inLevels, hframes, put, hread, hwritten⟩ := ih hpresent
      refine ⟨frames, inside, inLevels, hframes, fun found => some (put found),
        fun other hother found => ?_, hwritten⟩
      rw [readsAs_optional_iff (hnull hother)]
      apply Iff.intro
      · rintro ⟨value, rfl, hvalue⟩
        obtain ⟨last, hlast, rfl⟩ := (hread other hother value).1 hvalue
        exact ⟨last, hlast, rfl⟩
      · rintro ⟨last, hlast, rfl⟩
        exact ⟨put last, rfl, (hread other hother _).2 ⟨last, hlast, rfl⟩⟩
  | @item _ _ _ _ _ outerFront outerBack front back hform hinner ih =>
      have hwhole := hinner.wellFormed htext
      rw [append_around] at h
      obtain ⟨frame, midLevels, hstep, houter⟩ := readsAround_item hform hwhole h
      obtain ⟨middle, hmiddle⟩ := houter.exists_inside hwhole h
      obtain ⟨frames, inside, inLevels, hframes, haround⟩ := ih hmiddle
      refine ⟨frame :: frames, inside, inLevels, by rw [List.map_cons, hstep, hframes], ?_⟩
      exact houter.trans haround fun other hother => hinner.wellFormed hother
  | @slot _ _ _ _ _ outerFront outerBack front back hgap hslot hkey hinner ih =>
      have hwhole := hinner.wellFormed htext
      rw [append_around] at h
      obtain ⟨frame, midInside, midLevels, hstep, houter⟩ :=
        readsAround_slot hgap hwhole hslot hkey h
      obtain ⟨middle, hmiddle⟩ := houter.exists_inside hwhole h
      obtain ⟨frames, inside, inLevels, hframes, haround⟩ := ih hmiddle
      refine ⟨frame :: frames, inside, inLevels, by rw [List.map_cons, hstep, hframes], ?_⟩
      exact houter.trans haround fun other hother => hinner.wellFormed hother

end Ways

end InterfaceProbe
