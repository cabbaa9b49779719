/-
# Places in a text

Where a value stands in the text of a report, said by the bytes before it and the
bytes behind it.  Around the value there are lists and records in any layout and
either form, with keys in any order and other keys among them; what may be put
in its place is any other value.

The same place has a way of keys and indices, which does not show in the text what
form a record has there.  The way leads to the value again in the tree of what is
read.
-/

import InterfaceProbe.Proofs.Wire.Rewriting

namespace InterfaceProbe

open Grammar

/-- An array or object as it is written, with one value left open. -/
inductive Gap
  | item (before after : List Bytes)
  | entry (before : List (String × Bytes)) (key : String) (after : List (String × Bytes))

namespace Gap

/-- The array or object with a value where one was left open. -/
def fill : Gap → Bytes → Form Bytes
  | .item before after, text => .items (before ++ text :: after)
  | .entry before key after, text => .entries (before ++ (key, text) :: after)

/-- The key of the value left open, where the items of an array have the given keys. -/
def key? (keys : List String) : Gap → Option String
  | .item before _ => keys[before.length]?
  | .entry _ key _ => some key

/-- The gap is where the record of the shape is open in a text with the given ends.  What tells the
kind of a variant stands outside of the record. -/
def LiesIn (gap : Gap) (front back : Bytes) : Shape → Prop
  | .variant kind => ∃ tag, Denoted tag .kind kind ∧ ∀ text, WellFormed text →
      ∃ whole, FormOf whole (front ++ (text ++ back)) ∧ whole.Tagged tag (gap.fill text)
  | _ => ∀ text, WellFormed text → FormOf (gap.fill text) (front ++ (text ++ back))

end Gap

/-- One step of the way to a value. -/
inductive Step
  | item (index : Nat)
  | entry (key : String)
  deriving DecidableEq

/-- The step that a frame is around. -/
def Frame.step : Frame → Step
  | .item before _ => .item before.length
  | .entry _ key _ => .entry key

/-- In the text of a value for the one target, a value for the other stands between the two ends, at
the given way. -/
inductive StandsIn : Target → List Step → Bytes → Bytes → Target → Prop
  | here {target : Target} : StandsIn target [] [] [] target
  | present {target inner : Target} {step : Step} {way : List Step} {front back : Bytes} :
      StandsIn target (step :: way) front back inner →
      StandsIn (.optional target) (step :: way) front back inner
  | item {target inner : Target} {before after : List Bytes} {way : List Step}
      {outerFront outerBack front back : Bytes} :
      (∀ text, WellFormed text →
        FormOf (.items (before ++ text :: after)) (outerFront ++ (text ++ outerBack))) →
      StandsIn target way front back inner →
      StandsIn (.sequence target) (.item before.length :: way) (outerFront ++ front)
        (back ++ outerBack) inner
  | slot {shape : Shape} {gap : Gap} {slot : Slot} {inner : Target} {way : List Step}
      {outerFront outerBack front back : Bytes} :
      gap.LiesIn outerFront outerBack shape → slot ∈ shape.record.slots →
      gap.key? shape.keys = some slot.label → StandsIn slot.target way front back inner →
      StandsIn shape.target (.entry slot.label :: way) (outerFront ++ front) (back ++ outerBack)
        inner

section Texts

variable {gap : Gap} {front back text : Bytes} {shape : Shape} {keys : List String} {key : String}

/-- The keys of the other values are the same whatever the value is. -/
theorem Gap.exists_members (h : gap.key? keys = some key) :
    ∃ before after, ∀ text, (gap.fill text).members keys = before ++ (key, text) :: after := by
  cases gap with
  | item before after =>
      obtain ⟨hlt, hkey⟩ := List.getElem?_eq_some_iff.1 h
      have hsplit : keys = keys.take before.length ++ key :: keys.drop (before.length + 1) := by
        rw [← hkey, List.getElem_cons_drop, List.take_append_drop]
      have hlength : (keys.take before.length).length = before.length :=
        List.length_take_of_le (Nat.le_of_lt hlt)
      refine ⟨(keys.take before.length).zip before, (keys.drop (before.length + 1)).zip after,
        fun text => ?_⟩
      conv_lhs => rw [Gap.fill, Form.members, hsplit, List.zip_append hlength, List.zip_cons_cons]
  | entry before name after =>
      cases h
      exact ⟨before, after, fun _ => rfl⟩

theorem Gap.fits_iff (other : Bytes) :
    (gap.fill text).Fits keys ↔ (gap.fill other).Fits keys := by
  cases gap <;> simp [Gap.fill, Form.Fits]

/-- A gap in a text is filled with any value. -/
theorem Gap.LiesIn.recordForm (h : gap.LiesIn front back shape) (htext : WellFormed text) :
    RecordForm shape (front ++ (text ++ back)) (gap.fill text) := by
  cases shape with
  | variant kind =>
      rcases h with ⟨tag, htag, hgap⟩
      obtain ⟨whole, hwhole, htagged⟩ := hgap text htext
      exact ⟨whole, tag, hwhole, htagged, htag⟩
  | _ => exact h text htext

theorem RecordForm.exists_formOf {form : Form Bytes} (h : RecordForm shape text form) :
    ∃ whole, FormOf whole text := by
  cases shape with
  | variant kind =>
      rcases h with ⟨whole, -, hwhole, -⟩
      exact ⟨whole, hwhole⟩
  | _ => exact ⟨form, h⟩

variable {target inner : Target} {step : Step} {way : List Step}

/-- With a value in its place a text is a value. -/
theorem StandsIn.wellFormed (h : StandsIn target way front back inner) (htext : WellFormed text) :
    WellFormed (front ++ (text ++ back)) := by
  induction h with
  | here => simpa using htext
  | present _ ih => exact ih
  | item hform _ ih =>
      have hwhole := (hform _ ih).wellFormed_text
      simpa only [List.append_assoc] using hwhole
  | slot hgap _ _ _ ih =>
      obtain ⟨whole, hwhole⟩ := (hgap.recordForm ih).exists_formOf
      have hwell := hwhole.wellFormed_text
      simpa only [List.append_assoc] using hwell

theorem FormOf.ne_null {form : Form Bytes} (h : FormOf form text) : text ≠ nullText := by
  rintro rfl
  obtain ⟨trees, heq⟩ := h.exists_json .null
  cases trees <;> cases heq

/-- What has a value inside of it is not absent. -/
theorem StandsIn.ne_null (h : StandsIn target (step :: way) front back inner)
    (htext : WellFormed text) : front ++ (text ++ back) ≠ nullText := by
  generalize hsteps : step :: way = steps at h
  induction h with
  | here => cases hsteps
  | present _ ih => exact ih hsteps
  | item hform hinner _ =>
      have hne := (hform _ (hinner.wellFormed htext)).ne_null
      simpa only [List.append_assoc] using hne
  | slot hgap _ _ hinner _ =>
      obtain ⟨whole, hwhole⟩ := (hgap.recordForm (hinner.wellFormed htext)).exists_formOf
      have hne := hwhole.ne_null
      simpa only [List.append_assoc] using hne

end Texts

section Ends

variable {close : UInt8} {member value text : Bytes}

/-- A member of a container stands between two ends, which any other member fits. -/
theorem Further.exists_ends {before after : List Bytes}
    (h : Further close (before ++ member :: after) text) :
    ∃ front back, text = front ++ (member ++ back) ∧
      ∀ other, Further close (before ++ other :: after) (front ++ (other ++ back)) := by
  induction before generalizing text with
  | nil =>
      cases h with
      | @comma left right _ rest _ hleft hright hrest =>
          refine ⟨left ++ 44 :: right, rest, by simp, fun other => ?_⟩
          have hother : Further close (other :: after)
              (left ++ 44 :: (right ++ (other ++ rest))) := .comma hleft hright hrest
          simpa using hother
  | cons first before ih =>
      cases h with
      | @comma left right _ rest _ hleft hright hrest =>
          obtain ⟨front, back, rfl, hothers⟩ := ih hrest
          refine ⟨left ++ 44 :: (right ++ (first ++ front)), back, by simp, fun other => ?_⟩
          have hother : Further close (first :: (before ++ other :: after))
              (left ++ 44 :: (right ++ (first ++ (front ++ (other ++ back))))) :=
            .comma hleft hright (hothers other)
          simpa using hother

theorem Members.exists_ends {before after : List Bytes}
    (h : Members close (before ++ member :: after) text) :
    ∃ front back, text = front ++ (member ++ back) ∧
      ∀ other, Members close (before ++ other :: after) (front ++ (other ++ back)) := by
  cases before with
  | nil =>
      cases h with
      | @some blank _ rest _ hblank hrest =>
          exact ⟨blank, rest, rfl, fun other => .some hblank hrest⟩
  | cons first before =>
      cases h with
      | @some blank _ _ _ hblank hrest =>
          obtain ⟨front, back, rfl, hothers⟩ := Further.exists_ends hrest
          refine ⟨blank ++ (first ++ front), back, by simp, fun other => ?_⟩
          have hother : Members close (first :: (before ++ other :: after))
              (blank ++ (first ++ (front ++ (other ++ back)))) := .some hblank (hothers other)
          simpa using hother

theorem ArrayText.exists_ends {before after : List Bytes}
    (h : ArrayText (before ++ value :: after) text) :
    ∃ front back, text = front ++ (value ++ back) ∧
      ∀ other, ArrayText (before ++ other :: after) (front ++ (other ++ back)) := by
  rcases h with ⟨inside, hmembers, rfl⟩
  obtain ⟨front, back, rfl, hothers⟩ := Members.exists_ends hmembers
  exact ⟨91 :: front, back, rfl, fun other => ⟨_, hothers other, rfl⟩⟩

/-- What is related to a list with one member left open. -/
theorem exists_split_of_forall₂ {α β : Type} {relation : α → β → Prop} {before after : List α}
    {x : α} {others : List β} (h : List.Forall₂ relation (before ++ x :: after) others) :
    ∃ front y back, others = front ++ y :: back ∧ front.length = before.length ∧ relation x y ∧
      ∀ x' y', relation x' y' →
        List.Forall₂ relation (before ++ x' :: after) (front ++ y' :: back) := by
  induction before generalizing others with
  | nil =>
      cases h with
      | @cons _ y _ back hy hback =>
          exact ⟨[], y, back, rfl, rfl, hy, fun _ _ hy' => .cons hy' hback⟩
  | cons first before ih =>
      cases h with
      | @cons _ z _ rest hz hrest =>
          obtain ⟨front, y, back, rfl, hlength, hy, hothers⟩ := ih hrest
          exact ⟨z :: front, y, back, rfl, congrArg Nat.succ hlength, hy,
            fun x' y' hy' => .cons hz (hothers x' y' hy')⟩

/-- The value of an entry stands between two ends, which any other value fits. -/
theorem FormText.exists_ends {before after : List (String × Bytes)} {key : String}
    (h : FormText (.entries (before ++ (key, value) :: after)) text) :
    ∃ front back, text = front ++ (value ++ back) ∧
      ∀ other, FormText (.entries (before ++ (key, other) :: after))
        (front ++ (other ++ back)) := by
  rcases h with ⟨texts, ⟨entryTexts, inside, hsplitTexts, hinside, rfl⟩, hsplitKeys⟩
  obtain ⟨keysFront, ⟨literal, _⟩, keysBack, rfl, -, ⟨hliteral, rfl⟩, hkeys⟩ :=
    exists_split_of_forall₂ hsplitKeys
  obtain ⟨textsFront, _, textsBack, rfl, -, ⟨left, right, hleft, hright, rfl⟩, hentries⟩ :=
    exists_split_of_forall₂ hsplitTexts
  obtain ⟨front, back, rfl, hmembers⟩ := Members.exists_ends hinside
  refine ⟨123 :: (front ++ (literal ++ (left ++ 58 :: right))), back, by simp, fun other => ?_⟩
  have hentry : EntryText (literal, other) (literal ++ (left ++ 58 :: (right ++ other))) :=
    ⟨left, right, hleft, hright, rfl⟩
  have hother : ObjectText (keysFront ++ (literal, other) :: keysBack)
      (123 :: (front ++ ((literal ++ (left ++ 58 :: (right ++ other))) ++ back))) :=
    ⟨_, _, hentries _ _ hentry, hmembers _, rfl⟩
  refine ⟨_, ?_, hkeys (key, other) (literal, other) ⟨hliteral, rfl⟩⟩
  simpa using hother

/-- Every value in an array or object stands between two ends, which any other value fits. -/
theorem FormOf.exists_ends {gap : Gap} (h : FormOf (gap.fill value) text) :
    ∃ front back, text = front ++ (value ++ back) ∧
      ∀ other, WellFormed other → FormOf (gap.fill other) (front ++ (other ++ back)) := by
  have hothers {other : Bytes} (hother : WellFormed other) :
      ∀ part ∈ (gap.fill other).values, WellFormed part := by
    have hwell := h.wellFormed
    cases gap <;>
    · simp only [Gap.fill, Form.values, List.map_append, List.map_cons, List.forall_mem_append,
        List.forall_mem_cons] at hwell ⊢
      exact ⟨hwell.1, hother, hwell.2.2⟩
  cases gap with
  | item before after =>
      obtain ⟨front, back, heq, htexts⟩ := ArrayText.exists_ends h.isText
      exact ⟨front, back, heq, fun other hother => ⟨htexts other, hothers hother⟩⟩
  | entry before key after =>
      obtain ⟨front, back, heq, htexts⟩ := FormText.exists_ends h.isText
      exact ⟨front, back, heq, fun other hother => ⟨htexts other, hothers hother⟩⟩

end Ends

section WireForms

variable {shape : Shape} {record : shape.target.Value} {before after : List (String × Json)}
  {slot : Slot} {tree : Json} {text : Bytes}

/-- A text of a record has a gap at every entry. -/
theorem exists_gap_of_entry
    (hentries : wireForm shape.target record = .object (before ++ (slot.label, tree) :: after))
    (hkind : shape.HasKind (before ++ (slot.label, tree) :: after))
    (hslot : slot ∈ shape.record.slots)
    (htext : ValueText text (.object (before ++ (slot.label, tree) :: after))) :
    ∃ (gap : Gap) (front part back : Bytes), text = front ++ (part ++ back) ∧
      gap.LiesIn front back shape ∧ gap.key? shape.keys = some slot.label ∧
      ValueText part tree := by
  obtain ⟨members, hform, hshows⟩ := exists_shows htext
  obtain ⟨first, ⟨_, part⟩, last, rfl, -, ⟨rfl, hpart⟩, -⟩ := exists_split_of_forall₂ hshows.flip
  have hwhole : FormOf ((Gap.entry first slot.label last).fill part) text :=
    ⟨hform, List.forall_mem_map.2 hshows.wellFormed⟩
  obtain ⟨front, back, rfl, hothers⟩ := hwhole.exists_ends
  cases shape with
  | variant kind =>
      obtain ⟨tag, hmember, htag⟩ := hshows.exists_member hkind
      have hnodup := nodup_keys hentries hkind
      have hvalues := valuesAt_of_mem (hshows.keys ▸ hnodup) hmember
      have hne := label_ne_kindKey hslot
      let gap := Gap.entry (first.filter fun member => member.1 ≠ kindKey) slot.label
        (last.filter fun member => member.1 ≠ kindKey)
      refine ⟨gap, front, part, back, rfl, ⟨tag, ⟨_, htag, .inl rfl⟩, fun other hother => ?_⟩, rfl,
        hpart⟩
      refine ⟨_, hothers other hother, ?_, ?_⟩
      · rw [valuesAt_around_of_ne hne] at hvalues
        exact (valuesAt_around_of_ne hne).trans hvalues
      · simp [gap, Gap.fill, hne]
  | _ => exact ⟨.entry first slot.label last, front, part, back, rfl, hothers, rfl, hpart⟩

variable {target : Target} {value : target.Value} {frames : List Frame}

/-- A text of a list has a gap at every item. -/
theorem exists_gap_of_item {before after : List Json}
    (htext : ValueText text (.array (before ++ tree :: after))) :
    ∃ (first last : List Bytes) (front part back : Bytes), text = front ++ (part ++ back) ∧
      first.length = before.length ∧
      (∀ other, WellFormed other →
        FormOf (.items (first ++ other :: last)) (front ++ (other ++ back))) ∧
      ValueText part tree := by
  obtain ⟨texts, hform, hitems⟩ := valueText_array_iff.1 htext
  have hwell : ∀ text ∈ texts, WellFormed text := by
    intro text hmem
    obtain ⟨item, -, hitem⟩ := exists_related_of_mem hitems hmem
    exact hitem.wellFormed
  obtain ⟨first, part, last, rfl, hlength, hpart, -⟩ := exists_split_of_forall₂ hitems.flip
  have hwhole : FormOf ((Gap.item first last).fill part) text := ⟨hform, hwell⟩
  obtain ⟨front, back, rfl, hothers⟩ := hwhole.exists_ends
  exact ⟨first, last, front, part, back, rfl, hlength, hothers, hpart⟩

/-- Where a type stands in what is present at a slot, it stands in what the slot may hold. -/
theorem standsIn_slot {front back : Bytes}
    (h : StandsIn (entryTarget slot.label) (frames.map Frame.step) front back .type)
    (hlast : targetAt (entryTarget slot.label) frames = .type) :
    StandsIn slot.target (frames.map Frame.step) front back .type := by
  rcases slot_target slot with heq | heq
  · rwa [heq]
  · rw [heq]
    cases frames with
    | nil =>
        change entryTarget slot.label = .type at hlast
        rw [hlast] at heq
        cases slot <;> cases heq
    | cons frame frames => exact .present h

/-- In a text of a wire form a type stands where it stands in the wire form. -/
theorem exists_standsIn_of_plug (target : Target) {value : target.Value} (htarget : target.Present)
    (h : wireForm target value = plug frames tree) (hlast : targetAt target frames = .type)
    (htext : ValueText text (plug frames tree)) :
    ∃ front part back, text = front ++ (part ++ back) ∧
      StandsIn target (frames.map Frame.step) front back .type ∧ ValueText part tree := by
  induction frames generalizing target value text with
  | nil =>
      obtain rfl : target = .type := hlast
      exact ⟨[], text, [], by simp, .here, htext⟩
  | cons frame frames ih =>
      rcases wireForm_cases htarget value with ⟨name, heq⟩ | ⟨n, heq⟩ |
        ⟨item, values, hitem, rfl, heq⟩ | ⟨shape, entries, record, rfl, hkind, hentries, heq⟩
      · cases frame <;> cases heq.symm.trans h
      · cases frame <;> cases heq.symm.trans h
      · cases frame with
        | entry before key after => cases heq.symm.trans h
        | item before after =>
            have hvalues := Json.array.inj (heq.symm.trans h)
            obtain ⟨_, _, -, rfl, hrest⟩ := List.map_eq_append_iff.1 hvalues
            obtain ⟨part, _, rfl, hpart, -⟩ := List.map_eq_cons_iff.1 hrest
            obtain ⟨first, last, outerFront, inside, outerBack, rfl, hlength, hform, hinside⟩ :=
              exists_gap_of_item htext
            obtain ⟨front, text, back, rfl, hstands, htext⟩ := ih item hitem hpart hlast hinside
            refine ⟨outerFront ++ front, text, back ++ outerBack, by simp, ?_, htext⟩
            rw [List.map_cons, Frame.step, ← hlength]
            exact .item hform hstands
      · cases frame with
        | item before after => cases heq.symm.trans h
        | entry before key after =>
            obtain rfl := Json.object.inj (heq.symm.trans h)
            have hmem : (key, plug frames tree) ∈ before ++ (key, plug frames tree) :: after := by
              simp
            obtain ⟨part, hpart⟩ := exists_value_of_entry hentries hmem
            have hknown := (keys_sublist_known hentries hkind).subset (List.mem_map_of_mem hmem)
            rcases mem_known_iff.1 hknown with hkey | ⟨-, rfl⟩
            · rw [← shape.map_label_slots] at hkey
              obtain ⟨slot, hslot, rfl⟩ := List.mem_map.1 hkey
              obtain ⟨gap, outerFront, inside, outerBack, rfl, hgap, hlabel, hinside⟩ :=
                exists_gap_of_entry hentries hkind hslot htext
              obtain ⟨front, text, back, rfl, hstands, htext⟩ :=
                ih _ (present_entryTarget slot.label) hpart.symm hlast hinside
              refine ⟨outerFront ++ front, text, back ++ outerBack, by simp, ?_, htext⟩
              exact .slot hgap hslot hlabel (standsIn_slot hstands hlast)
            · -- The kind is no type and has no type in it.
              change targetAt (entryTarget kindKey) frames = .type at hlast
              change plug frames tree = .string _ at hpart
              cases frames with
              | nil => cases hlast
              | cons frame _ => cases frame <;> cases hpart

end WireForms

end InterfaceProbe
