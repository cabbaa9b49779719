/-
# One verdict on a text and its tree

Records are read while their text goes by, yet the answer is that of the tree:
the same value, or the same first fault.  This is said for compact texts of
trees that fit their place, `Fits`.  Such a tree has an object for every record,
with known keys only, and names the kind of a type.  Known keys may be missing,
repeated or out of order.

A text that nests too deep may be given up earlier than its tree is at fault.
-/

import InterfaceProbe.Proofs.Wire.Outcomes
import InterfaceProbe.Proofs.Wire.RoundTrip
import InterfaceProbe.Proofs.Wire.Slots

namespace InterfaceProbe

open Grammar Reader

/-- The targets that are read as trees wherever they stand, types apart. -/
def Target.isBuffered : Target → Bool
  | .int64 | .dir | .unit | .field => true
  | _ => false

/-- The tree has the outline of what is read for the target. -/
inductive Fits : Target → Json → Prop
  | text (text : String) : Fits .text (.string text)
  | kind (name : String) : Fits .kind (.string name)
  | buffered {target : Target} {tree : Json} : target.isBuffered = true → Plain tree →
      Fits target tree
  | sequence {target : Target} {items : List Json} : (∀ item ∈ items, Fits target item) →
      Fits (.sequence target) (.array items)
  | record {target : Target} {shape : Shape} {entries : List (String × Json)} :
      shape.target = target → shape.isBuffered = false →
      (∀ entry ∈ entries, entry.1 ∈ shape.keys) →
      (∀ entry ∈ entries, Fits (entryTarget entry.1) entry.2) → Fits target (.object entries)
  | type {entries : List (String × Json)} : (∀ entry ∈ entries, Plain entry.2) →
      (∀ entry ∈ entries, entry.1 = kindKey → ∃ name, entry.2 = .string name) →
      Fits .type (.object entries)

theorem Fits.plain {target : Target} {tree : Json} (h : Fits target tree) : Plain tree := by
  induction h with
  | text text => exact .string text
  | kind name => exact .string name
  | buffered _ hplain => exact hplain
  | sequence _ ih => exact .array ih
  | record _ _ _ _ ih => exact .object ih
  | type hplain _ => exact .object hplain

theorem Json.reading_optional {tree : Json} (h : tree ≠ .null) (target : Target) :
    tree.reading (.optional target) = some <$> tree.reading target := by
  cases tree with
  | null => exact absurd rfl h
  | _ => rfl

theorem Json.reading_sequence (items : List Json) (target : Target) :
    (Json.array items).reading (.sequence target) = items.mapM fun item => item.reading target := by
  change (itemReadings items).mapM (fun reading => reading target) = _
  rw [itemReadings_eq_map, List.mapM_map]
  rfl

section Parts

variable {levels : Nat} {target : Target} {tree : Json}

theorem stream_optional (levels : Nat) (target : Target) :
    stream levels (.optional target) = Reader.optional (stream levels target) := by
  cases levels <;> rfl

theorem Plain.ne_null (h : Plain tree) : tree ≠ .null := by
  rintro rfl
  cases h

/-- No plain value starts with the first letter of `null`. -/
theorem Plain.start_ne (h : Plain tree) :
    ∃ b tail, utf8 tree.compact = b :: tail ∧ Reader.isBlank b = false ∧ b ≠ 110 := by
  obtain ⟨b, tail, heq, hb⟩ := h.start
  refine ⟨b, tail, heq, hb.ne.1, ?_⟩
  rintro rfl
  have hword := eq_nullText_of_wellFormed (heq ▸ h.valueText.wellFormed)
  exact h.ne_null (ValueText.unique h.valueText (heq ▸ hword ▸ .null))

/-- A present value of an optional target is read as the value. -/
theorem Plain.optional_runsAs {deep : Prop} (h : Plain tree)
    (hrun : RunsAs deep (stream levels target) (utf8 tree.compact) (tree.reading target)) :
    RunsAs deep (stream levels (.optional target)) (utf8 tree.compact)
      (tree.reading (.optional target)) := by
  intro rest hrest
  obtain ⟨b, tail, heq, hblank, hb⟩ := h.start_ne
  have hread := (hrun rest hrest).map some
  rw [stream_optional, Json.reading_optional h.ne_null, Reader.optional]
  rw [heq, List.cons_append] at hread ⊢
  rw [run_bind_of_ok (run_peek_cons hblank _ _), if_neg hb]
  exact hread

/-- What is read at a slot is what the wire form has at its key. -/
theorem Plain.slot_runsAs {deep : Prop} (slot : Slot) (h : Plain tree)
    (hrun : RunsAs deep (stream levels (entryTarget slot.label)) (utf8 tree.compact)
      (tree.reading (entryTarget slot.label))) :
    RunsAs deep (stream levels slot.target) (utf8 tree.compact) (tree.reading slot.target) := by
  rcases slot_target slot with hslot | hslot
  · rw [hslot]
    exact hrun
  · rw [hslot]
    exact h.optional_runsAs hrun

theorem foldlM_collect_map {σ τ : Type} (f : σ → Except Fault τ) (members : List σ)
    (collected : List τ) :
    members.foldlM (fun collected member => (· :: collected) <$> f member) collected =
      (fun values => values.reverse ++ collected) <$> members.mapM f := by
  induction members generalizing collected with
  | nil => rfl
  | cons member members ih =>
      rw [List.foldlM_cons, List.mapM_cons]
      cases f member with
      | error fault => rfl
      | ok value =>
          apply (ih (value :: collected)).trans
          cases members.mapM f with
          | error fault => rfl
          | ok values => simp [Functor.map, Except.map, bind, Except.bind, pure, Except.pure]

/-- A list is read item by item. -/
theorem sequence_runsAs {items : List Json} (hplain : ∀ item ∈ items, Plain item)
    (hitems : ∀ item ∈ items,
      RunsAs (levels < item.depth) (stream levels target) (utf8 item.compact)
        (item.reading target)) :
    RunsAs (levels + 1 < (Json.array items).depth) (stream (levels + 1) (.sequence target))
      (utf8 (Json.array items).compact) ((Json.array items).reading (.sequence target)) := by
  intro rest _
  have hitem (item : Json) (hitem : item ∈ items) (collected : List target.Value) :
      RunsAs (levels + 1 < (Json.array items).depth)
        (do return (← stream levels target) :: collected) (utf8 item.compact)
        ((· :: collected) <$> item.reading target) := fun rest hrest =>
    ((hitems item hitem rest hrest).map (· :: collected)).mono fun hdeep =>
      Nat.lt_of_le_of_lt hdeep (depth_lt_of_mem_items hitem)
  have hloop := answers_items (fun item hitem => (hplain item hitem).start) hitem [] rest
  rw [foldlM_collect_map, ← Json.reading_sequence] at hloop
  have hread := (answers_enter (levels + 1) 91 (fun h => absurd h (by simp))
    fun _ => hloop).map List.reverse
  rw [utf8_compact_array, List.cons_append]
  change Answers _ _ _ ((Reader.sequence (levels + 1) (stream levels target)).run _)
  rw [Reader.sequence, run_bind_of_ok (run_peek_cons (by decide) _ _), if_pos rfl]
  convert hread using 1
  cases (Json.array items).reading (.sequence target) <;> simp [Functor.map, Except.map]

end Parts

section Records

variable {levels : Nat} {shape : Shape} {entries : List (String × Json)}

theorem stream_record (hshape : shape.isBuffered = false) (levels : Nat) :
    stream (levels + 1) shape.target =
      recordValue shape.record (fun slot => stream levels slot.target) (levels + 1) := by
  cases shape with
  | field | variant kind => cases hshape
  | _ => rfl

theorem reading_record (hshape : shape.isBuffered = false) (entries : List (String × Json)) :
    (Json.object entries).reading shape.target =
      Reading.recordOfEntries shape.record (entryReadings entries) := by
  cases shape with
  | field | variant kind => cases hshape
  | _ => rfl

/-- An entry fills its slot, or is refused, as its tree is. -/
theorem slotEntry_runsAs {deep : Prop} (draft : Draft) {entry : String × Json}
    (hkey : entry.1 ∈ shape.keys)
    (hvalue : ∀ slot : Slot, slot.label = entry.1 →
      RunsAs deep (stream levels slot.target) (utf8 entry.2.compact)
        (entry.2.reading slot.target)) :
    RunsAs deep (slotEntry shape.record (fun slot => stream levels slot.target) draft)
      (entryText entry.1 (utf8 entry.2.compact))
      (Reading.fillEntry shape.record draft (entry.1, entry.2.reading)) := by
  change RunsAs deep (key >>= slotContent shape.record _ draft) _ _
  refine runsAs_entry fun rest hrest => ?_
  refine (answers_ofExcept _ _).bind fun slot? hslot => ?_
  rw [run_bind_of_ok (run_colon_cons _)]
  cases slot? with
  | none =>
      rw [← shape.map_label_slots] at hkey
      exact absurd hkey (Record.slot?_eq_none_iff.1 (slotFor_eq_ok_none_iff.1 hslot))
  | some slot =>
      obtain ⟨hsome, -⟩ := slotFor_eq_ok_some_iff.1 hslot
      obtain ⟨-, hlabel⟩ := (Record.slot?_eq_some_iff shape.nodup_labels).1 hsome
      exact (hvalue slot hlabel rest hrest).bind fun value _ => .inl rfl

/-- An object with known keys is read as a record entry by entry. -/
theorem record_runsAs (hshape : shape.isBuffered = false)
    (hkeys : ∀ entry ∈ entries, entry.1 ∈ shape.keys)
    (hvalues : ∀ entry ∈ entries, ∀ slot : Slot, slot.label = entry.1 →
      RunsAs (levels < entry.2.depth) (stream levels slot.target) (utf8 entry.2.compact)
        (entry.2.reading slot.target)) :
    RunsAs (levels + 1 < (Json.object entries).depth) (stream (levels + 1) shape.target)
      (utf8 (Json.object entries).compact) ((Json.object entries).reading shape.target) := by
  intro rest _
  have hentry (entry : String × Json) (hentry : entry ∈ entries) (draft : Draft) :
      RunsAs (levels + 1 < (Json.object entries).depth)
        (slotEntry shape.record (fun slot => stream levels slot.target) draft)
        (entryText entry.1 (utf8 entry.2.compact))
        (Reading.fillEntry shape.record draft (entry.1, entry.2.reading)) :=
    slotEntry_runsAs draft (hkeys entry hentry) fun slot hslot =>
      (hvalues entry hentry slot hslot).mono fun hdeep =>
        Nat.lt_of_le_of_lt hdeep (depth_lt_of_mem_entries hentry)
  have hloop := answers_entries (fun entry _ => exists_cons_of_entryText entry.1 _) hentry
    Draft.empty rest
  rw [reading_record hshape, Reading.recordOfEntries_eq_foldlM, entryReadings_eq_map,
    List.foldlM_map, stream_record hshape, utf8_compact_object, List.cons_append, recordValue,
    run_bind_of_ok (run_peek_cons (by decide) _ _), if_neg (by decide), if_pos rfl]
  exact (answers_enter _ _ (fun h => absurd h (by simp)) fun _ => hloop).bind fun draft _ =>
    answers_ofExcept _ _

end Records

section Types

variable {levels : Nat} {entries : List (String × Json)}

/-- What is collected of the entries of a type: its kind, and the others in reverse. -/
def collectEntry (found : Option Kind × List (String × Json)) (entry : String × Json) :
    Except Fault (Option Kind × List (String × Json)) :=
  if entry.1 = kindKey then
    if found.1.isSome then .error (.duplicateField kindKey)
    else (fun kind => (some kind, found.2)) <$> entry.2.reading .kind
  else .ok (found.1, entry :: found.2)

theorem foldlM_collectEntry (found : Option Kind) (values : List (String × Json)) :
    entries.foldlM collectEntry (found, values) =
      (fun kind => (kind, (entries.filter fun entry => entry.1 ≠ kindKey).reverse ++ values)) <$>
        (entryReadings entries).foldlM (fun (found : Option Kind) (entry : String × Reading) => (do
          if entry.1 = kindKey then
            if found.isSome then .error (.duplicateField kindKey)
            else return some (← entry.2 .kind)
          else return found : Except Fault (Option Kind))) found := by
  induction entries generalizing found values with
  | nil => rfl
  | cons entry entries ih =>
      rcases entry with ⟨name, tree⟩
      rw [entryReadings, List.foldlM_cons, List.foldlM_cons, collectEntry]
      by_cases hname : name = kindKey
      · cases found with
        | some kind => simp [hname, Functor.map, Except.map, bind, Except.bind]
        | none =>
            cases hkind : tree.reading .kind with
            | error fault =>
                simp [hname, hkind, Functor.map, Except.map, bind, Except.bind]
            | ok kind =>
                have hrest := ih (some kind) values
                simpa [hname, hkind, Functor.map, Except.map, bind, Except.bind, pure,
                  Except.pure] using hrest
      · have hrest := ih found ((name, tree) :: values)
        simpa [hname, bind, Except.bind, pure, Except.pure] using hrest

/-- The type that collected entries make up. -/
def typeOfCollected : Option Kind × List (String × Json) → Except Fault GoType
  | (none, _) => .error (.missingField kindKey)
  | (some kind, values) => Reading.recordOfEntries kind.record (entryReadings values.reverse)

theorem reading_type (entries : List (String × Json)) :
    (Json.object entries).reading .type =
      entries.foldlM collectEntry (none, []) >>= typeOfCollected := by
  have hfilter := entryReadings_filter (fun key => decide (key ≠ kindKey)) entries
  rw [foldlM_collectEntry]
  change (Reading.kindOfEntries (entryReadings entries) >>= fun found =>
    Reading.recordOfEntries found.1.record found.2) = _
  rw [Reading.kindOfEntries, hfilter]
  generalize (List.foldlM _ none (entryReadings entries) : Except Fault (Option Kind)) = kind?
  rcases kind? with fault | _ | kind
  · rfl
  · rfl
  · simp [bind, Except.bind, Functor.map, Except.map, pure, Except.pure, typeOfCollected]

theorem kindName_runsAs {deep : Prop} (name : String) :
    RunsAs deep kindName (utf8 (Json.string name).compact) ((Json.string name).reading .kind) := by
  intro rest _
  obtain ⟨tail, heq, hliteral⟩ := run_literal_of_stringText (stringText_quoted name) rest
  change Answers _ (Kind.ofName name) _ (kindName.run (utf8 (quoted name) ++ rest))
  rw [heq, List.cons_append, kindName, run_bind_of_ok (run_peek_cons (by decide) _ _), if_pos rfl,
    run_bind_of_ok (run_skip_cons 34 _), run_bind_of_ok hliteral]
  exact answers_ofExcept _ _

/-- An entry of a type is collected, or its kind refused, as its tree is. -/
theorem typeEntry_runsAs {deep : Prop} (found : Option Kind × List (String × Json))
    {entry : String × Json} (hplain : Plain entry.2)
    (hkind : entry.1 = kindKey → ∃ name, entry.2 = .string name)
    (hdeep : levels < entry.2.depth → deep) :
    RunsAs deep (typeEntry levels found) (entryText entry.1 (utf8 entry.2.compact))
      (collectEntry found entry) := by
  change RunsAs deep (key >>= typeContent levels found) _ _
  refine runsAs_entry fun rest hrest => ?_
  unfold typeContent collectEntry
  by_cases hname : entry.1 = kindKey
  · rw [if_pos hname, if_pos hname]
    by_cases hfound : found.1.isSome
    · rw [if_pos hfound, if_pos hfound]
      exact .inl rfl
    · obtain ⟨name, hstring⟩ := hkind hname
      rw [if_neg hfound, if_neg hfound, run_bind_of_ok (run_colon_cons _), hstring]
      exact (kindName_runsAs name rest hrest).map fun kind => (some kind, found.2)
  · rw [if_neg hname, if_neg hname, run_bind_of_ok (run_colon_cons _)]
    exact ((hplain.value_runsAs levels rest hrest).map fun tree =>
      (found.1, (entry.1, tree) :: found.2)).mono hdeep

/-- A plain object whose kind is named is read as a type as its tree is. -/
theorem type_runsAs (hplain : ∀ entry ∈ entries, Plain entry.2)
    (hkind : ∀ entry ∈ entries, entry.1 = kindKey → ∃ name, entry.2 = .string name) :
    RunsAs (levels + 1 < (Json.object entries).depth) (typeValue (levels + 1))
      (utf8 (Json.object entries).compact) ((Json.object entries).reading .type) := by
  intro rest _
  have hentry (entry : String × Json) (hentry : entry ∈ entries)
      (found : Option Kind × List (String × Json)) :=
    typeEntry_runsAs found (hplain entry hentry) (hkind entry hentry) fun hdeep =>
      Nat.lt_of_le_of_lt (n := levels + 1) hdeep (depth_lt_of_mem_entries hentry)
  have hloop := answers_entries (fun entry _ => exists_cons_of_entryText entry.1 _) hentry
    (none, []) rest
  rw [reading_type, utf8_compact_object, List.cons_append, typeValue,
    run_bind_of_ok (run_peek_cons (by decide) _ _), if_neg (by decide), if_pos rfl]
  refine (answers_enter _ _ (fun h => absurd h (by simp)) fun _ => hloop).bind fun found _ => ?_
  rcases found with ⟨_ | kind, values⟩
  · exact .inl rfl
  · exact answers_ofExcept _ _

end Types

section Main

variable {target : Target} {tree : Json}

/-- What is read as a tree wherever it stands. -/
theorem Plain.reading_runsAs (h : Plain tree) (levels : Nat) (target : Target) :
    RunsAs (levels < tree.depth) (do ofExcept ((← value levels).reading target))
      (utf8 tree.compact) (tree.reading target) := by
  intro rest hrest
  have hread : Answers _ (Except.ok tree >>= fun found => found.reading target) rest _ :=
    (h.value_runsAs levels rest hrest).bind fun found _ => answers_ofExcept _ _
  exact hread

/-- The compact text of a tree that fits is read as the tree is. -/
theorem Fits.runsAs (h : Fits target tree) (levels : Nat) :
    RunsAs (levels < tree.depth) (stream levels target) (utf8 tree.compact)
      (tree.reading target) := by
  induction h generalizing levels with
  | text text =>
      cases levels <;> exact .of_takes text_takes.weaken (stringText_quoted text)
  | kind name => cases levels <;> exact kindName_runsAs name
  | @buffered target tree htarget hplain =>
      have hrun := hplain.reading_runsAs levels target
      cases target with
      | int64 | dir | unit | field => cases levels <;> exact hrun
      | _ => cases htarget
  | @sequence target items hitems ih =>
      cases levels with
      | zero =>
          intro rest _
          rw [utf8_compact_array]
          exact .inr ⟨Nat.succ_pos _, rfl⟩
      | succ levels =>
          exact sequence_runsAs (fun item hitem => (hitems item hitem).plain)
            fun item hitem => ih item hitem levels
  | @record target shape entries htarget hshape hkeys hentries ih =>
      subst htarget
      cases levels with
      | zero =>
          intro rest _
          rw [utf8_compact_object]
          cases shape with
          | field | variant kind => cases hshape
          | _ => exact .inr ⟨Nat.succ_pos _, rfl⟩
      | succ levels =>
          refine record_runsAs hshape hkeys fun entry hentry slot hslot => ?_
          refine (hentries entry hentry).plain.slot_runsAs slot ?_
          rw [hslot]
          exact ih entry hentry levels
  | @type entries hplain hkind =>
      cases levels with
      | zero =>
          intro rest _
          rw [utf8_compact_object]
          exact .inr ⟨Nat.succ_pos _, rfl⟩
      | succ levels => exact type_runsAs hplain hkind

/-- The wire form of a type fits: its parts are plain and its kind is named once. -/
theorem fits_toJson (type : GoType) : Fits .type type.toJson := by
  obtain ⟨entries, hentries⟩ : ∃ entries, wireForm .type type = .object entries :=
    exists_entries_of_target (.variant .named) rfl
  have hplain := plain_wireForm .type trivial type
  rw [hentries] at hplain
  obtain ⟨kind, rest, rfl, hkeys⟩ := exists_kind_of_type hentries
  rw [show type.toJson = _ from hentries]
  cases hplain with
  | object hplain =>
      refine .type hplain fun entry hentry hkey => ?_
      rcases List.mem_cons.1 hentry with rfl | hrest
      · exact ⟨_, rfl⟩
      · rcases entry with ⟨_, tree⟩
        cases hkey
        exact absurd hrest (kindKey_not_mem_of_sublist hkeys tree)

/-- A wire form fits its place. -/
theorem fits_wireForm (target : Target) (htarget : target.Present) (value : target.Value) :
    Fits target (wireForm target value) := by
  induction hdepth : (wireForm target value).depth using Nat.strongRecOn
    generalizing target value with
  | _ depth ih =>
      subst hdepth
      have record (shape : Shape) (hshape : shape.isBuffered = false)
          (htarget : shape.target = target) {entries : List (String × Json)}
          (hentries : wireForm target value = .object entries) :
          Fits target (wireForm target value) := by
        subst htarget
        have hkeys : (entries.map Prod.fst).Sublist shape.keys := by
          cases shape with
          | field | variant kind => cases hshape
          | _ => exact keys_sublist_known hentries trivial
        rw [hentries] at ih ⊢
        refine .record rfl hshape (fun entry hentry => hkeys.subset (List.mem_map_of_mem hentry))
          fun entry hentry => ?_
        have hlt := depth_lt_of_mem_entries hentry
        rcases entry with ⟨key, tree⟩
        obtain ⟨part, rfl⟩ := exists_value_of_entry hentries hentry
        exact ih _ hlt _ (present_entryTarget key) part rfl
      cases target with
      | text => exact .text value
      | int64 => exact .buffered rfl (plain_wireForm _ htarget value)
      | dir => exact .buffered rfl (plain_wireForm _ htarget value)
      | kind => exact .kind _
      | unit => exact htarget.elim
      | optional target => exact htarget.elim
      | field => exact .buffered rfl (plain_wireForm _ htarget value)
      | sequence item =>
          refine .sequence fun tree htree => ?_
          have hlt := depth_lt_of_mem_items htree
          obtain ⟨part, -, rfl⟩ := List.mem_map.1 htree
          exact ih _ hlt item htarget part rfl
      | type => exact fits_toJson value
      | parameter => exact record .parameter rfl rfl rfl
      | method => exact record .method rfl rfl rfl
      | interface => exact record .interface rfl rfl rfl
      | package => exact record .package rfl rfl rfl

end Main

section Packages

variable {tree : Json}

theorem ends_lineFeed : Ends [10] := ends_of_blank (by simp [Blank])

/-- A tree within the levels that fits is read from its compact text as the tree is. -/
theorem readPackage_of_fits (h : Fits .package tree) (hdepth : tree.depth ≤ maxLevels) :
    readPackage (utf8 tree.compact ++ [10]) = tree.reading .package := by
  rcases h.runsAs maxLevels [10] ends_lineFeed with hrun | ⟨hdeep, -⟩
  · rw [readPackage, hrun]
    cases tree.reading .package <;> rfl
  · exact absurd hdepth (Nat.not_le.2 hdeep)

end Packages

end InterfaceProbe
