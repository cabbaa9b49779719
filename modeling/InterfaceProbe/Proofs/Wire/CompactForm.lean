/-
# The texts of a wire form

How deep a text that denotes the wire form of a description may nest and still be
read.  Within the levels it is one of the spellings of the description.  Beyond
them it has no meaning: a text has one form only, so its members are the entries
of the wire form, and every part of that stands under a known key, so nothing of it
is skipped.  The compact text is such a text.

The form of a text is unique because a reader can find it, one that answers
with the texts of the values instead of what they denote.
-/

import InterfaceProbe.Proofs.Json.Compact
import InterfaceProbe.Proofs.Wire.SpelledValues

namespace InterfaceProbe

open Grammar Reader

section Forms

namespace Reader

/-- The text of the value at the front. -/
def captured : Reader Bytes where
  run text :=
    match skipValue.run text with
    | .error fault => .error fault
    | .ok ((), rest) => .ok ((skipBlank text).take ((skipBlank text).length - rest.length), rest)
  rest_suffix {text} value rest h := by
    split at h
    · cases h
    · next hskip =>
      cases h
      exact skipValue.rest_suffix hskip

theorem skipBlank_append_wellFormed {blank value : Bytes} (hblank : Blank blank)
    (hvalue : WellFormed value) (rest : Bytes) :
    skipBlank (blank ++ (value ++ rest)) = value ++ rest := by
  obtain ⟨b, tail, rfl, hb⟩ := hvalue.start
  exact skipBlank_blank_cons hblank hb.ne.1 _

theorem captured_takes :
    Takes Ends captured fun text value => WellFormed text ∧ value = text where
  sound {text value rest} h := by
    simp only [captured] at h
    split at h
    · cases h
    · next hskip =>
        cases h
        obtain ⟨blank, taken, hblank, htaken, rfl⟩ := skipValue_takes.sound hskip
        refine ⟨blank, taken, hblank, ⟨htaken, ?_⟩, rfl⟩
        simp [skipBlank_append_wellFormed hblank htaken]
  complete {blank taken value rest} hblank htaken hrest := by
    rcases htaken with ⟨htaken, rfl⟩
    have hskip : skipValue.run (blank ++ (value ++ rest)) = .ok ((), rest) :=
      skipValue_takes.complete hblank htaken hrest
    simp [captured, hskip, skipBlank_append_wellFormed hblank htaken]

end Reader

theorem wellFormed_same_start {text value : Bytes} (h : WellFormed text ∧ value = text) :
    ∃ b tail, text = b :: tail ∧ IsValueStart b :=
  h.1.start

/-- An array has one sequence of items. -/
theorem ArrayText.unique {items others : List Bytes} {text : Bytes} (h : ArrayText items text)
    (hother : ArrayText others text) (hitems : ∀ item ∈ items, WellFormed item)
    (hothers : ∀ item ∈ others, WellFormed item) : items = others := by
  obtain ⟨inside, -, rfl⟩ := id h
  have hrun {values : List Bytes} (htext : ArrayText values (91 :: inside))
      (hvalues : ∀ value ∈ values, WellFormed value) :=
    run_items_of_arrayText captured_takes wellFormed_same_start htext
      (List.forall₂_same.2 fun value hvalue => ⟨hvalues value hvalue, rfl⟩) []
  have hsame := (hrun h hitems).symm.trans (hrun hother hothers)
  simpa using hsame

/-- An object has one sequence of entries. -/
theorem FormText.entries_unique {members others : List (String × Bytes)} {text : Bytes}
    (h : FormText (.entries members) text) (hother : FormText (.entries others) text)
    (hmembers : ∀ member ∈ members, WellFormed member.2)
    (hothers : ∀ member ∈ others, WellFormed member.2) : members = others := by
  obtain ⟨-, ⟨_, inside, -, -, rfl⟩, -⟩ := id h
  have hrun {entries : List (String × Bytes)} (hform : FormText (.entries entries) (123 :: inside))
      (hentries : ∀ entry ∈ entries, WellFormed entry.2) :
      (Reader.entries (fun collected => do
        let name ← key
        colon
        return (name, ← captured) :: collected) []).run (inside ++ []) =
          .ok (entries.reverse, []) := by
    rcases hform with ⟨texts, htext, hsame⟩
    refine run_entries_of_objectText captured_takes htext ?_ []
    refine (forall₂_and_right.2 ⟨hsame.flip, hentries⟩).imp ?_
    rintro texts entry ⟨⟨hname, hvalue⟩, hwell⟩
    exact ⟨hname, hvalue ▸ hwell, hvalue.symm⟩
  have hsame := (hrun h hmembers).symm.trans (hrun hother hothers)
  simpa using hsame

/-- The values of an object that is a record are well formed, and so the object has no other
entries. -/
theorem IsRecord.entries_eq {shape : Shape} {means : Bytes → Meaning} {form : Form Bytes}
    {value : shape.target.Value} {members : List (String × Bytes)} {text : Bytes}
    (h : IsRecord shape WellFormed means form value) (htext : FormText form text)
    (hmeans : ∀ {text target value}, means text target value → WellFormed text)
    (hmembers : FormText (.entries members) text)
    (hwell : ∀ member ∈ members, WellFormed member.2) : form = .entries members := by
  obtain ⟨b, tail, rfl, ⟨rfl, values, rfl⟩ | ⟨rfl, found, rfl⟩⟩ := FormText.start htext
  · rcases hmembers with ⟨-, ⟨_, inside, -, -, hbrace⟩, -⟩
    cases hbrace
  · rw [FormText.entries_unique htext hmembers (IsRecord.wellFormed h hmeans) hwell]

end Forms

section Entries

variable {shape : Shape} {value : shape.target.Value} {entries : List (String × Json)}
  {key : String} {tree : Json}

/-- The keys of a wire form are known ones in declaration order. -/
theorem keys_sublist_known (hentries : wireForm shape.target value = .object entries)
    (hkind : shape.HasKind entries) : (entries.map Prod.fst).Sublist shape.known := by
  cases shape with
  | package | interface | parameter | field =>
      cases hentries
      exact List.Sublist.refl _
  | method =>
      cases hentries
      exact (signatureEntries_keys_sublist _ _ _).cons_cons "name"
  | variant kind =>
      obtain ⟨other, rest, rfl, hkeys⟩ := exists_kind_of_type hentries
      obtain rfl := eq_of_hasKind hkind (kindKey_not_mem_of_sublist hkeys)
      exact hkeys.cons_cons kindKey

theorem nodup_known (shape : Shape) : shape.known.Nodup := by
  cases shape with
  | variant kind => cases kind <;> decide
  | _ => decide

theorem mem_signatureEntries_iff {params results : List Json} {variadic : Option Json} :
    (key, tree) ∈ signatureEntries params results variadic ↔
      key = "params" ∧ tree = .array params ∨ key = "results" ∧ tree = .array results ∨
        key = "variadic" ∧ variadic = some tree := by
  cases variadic <;> simp [signatureEntries, optionalEntry, eq_comm]

theorem exists_value_of_signature {params results : List Parameter} {variadic : Option Parameter}
    (h : (key, tree) ∈ signatureEntries (params.map Parameter.toJson)
      (results.map Parameter.toJson) (variadic.map Parameter.toJson)) :
    ∃ value, tree = wireForm (entryTarget key) value := by
  rcases mem_signatureEntries_iff.1 h with ⟨rfl, rfl⟩ | ⟨rfl, rfl⟩ | ⟨rfl, hvariadic⟩
  · exact ⟨params, rfl⟩
  · exact ⟨results, rfl⟩
  · obtain ⟨present, -, rfl⟩ := Option.map_eq_some_iff.1 hvariadic
    exact ⟨present, rfl⟩

/-- Every entry of the wire form of a type is a wire form. -/
theorem exists_value_of_type_entry {type : GoType} (hentries : type.toJson = .object entries)
    (hmem : (key, tree) ∈ entries) : ∃ value, tree = wireForm (entryTarget key) value := by
  have first {kind : Kind} {rest : List (String × Json)}
      (h : (key, tree) ∈ (kindKey, .string kind.name) :: rest)
      (hrest : (key, tree) ∈ rest → ∃ value, tree = wireForm (entryTarget key) value) :
      ∃ value, tree = wireForm (entryTarget key) value := by
    rcases List.mem_cons.1 h with hkind | h
    · cases hkind
      exact ⟨kind, rfl⟩
    · exact hrest h
  cases type with
  | named path name =>
      cases hentries
      refine first hmem fun h => ?_
      rcases List.mem_append.1 h with h | h
      · obtain ⟨rfl, present, -, rfl⟩ := mem_optionalEntry_iff.1 h
        exact ⟨present, rfl⟩
      · cases List.mem_singleton.1 h
        exact ⟨name, rfl⟩
  | pointer elem =>
      cases hentries
      refine first hmem fun h => ?_
      cases List.mem_singleton.1 h
      exact ⟨elem, rfl⟩
  | array len elem =>
      cases hentries
      refine first hmem fun h => ?_
      rcases List.mem_append.1 h with h | h
      · obtain ⟨rfl, present, -, rfl⟩ := mem_optionalEntry_iff.1 h
        exact ⟨present, rfl⟩
      · cases List.mem_singleton.1 h
        exact ⟨elem, rfl⟩
  | map mapKey value =>
      cases hentries
      refine first hmem fun h => ?_
      rcases List.mem_pair.1 h with h | h <;> cases h
      · exact ⟨mapKey, rfl⟩
      · exact ⟨value, rfl⟩
  | chan dir elem =>
      cases hentries
      refine first hmem fun h => ?_
      rcases List.mem_pair.1 h with h | h <;> cases h
      · exact ⟨dir, rfl⟩
      · exact ⟨elem, rfl⟩
  | func params results variadic =>
      cases hentries
      refine first hmem fun h => ?_
      rw [parametersJson_eq_map, parametersJson_eq_map, optionJson_eq_map] at h
      exact exists_value_of_signature h
  | struct fields =>
      cases hentries
      refine first hmem fun h => ?_
      rw [fieldsJson_eq_map] at h
      cases List.mem_singleton.1 h
      exact ⟨fields, rfl⟩
  | interface methods =>
      cases hentries
      refine first hmem fun h => ?_
      rw [methodsJson_eq_map] at h
      cases List.mem_singleton.1 h
      exact ⟨methods, rfl⟩
  | predeclared name =>
      cases hentries
      refine first hmem fun h => ?_
      cases List.mem_singleton.1 h
      exact ⟨name, rfl⟩

/-- Every entry of a wire form is a wire form. -/
theorem exists_value_of_entry (hentries : wireForm shape.target value = .object entries)
    (hmem : (key, tree) ∈ entries) : ∃ value, tree = wireForm (entryTarget key) value := by
  cases shape with
  | package =>
      cases hentries
      rcases List.mem_pair.1 hmem with h | h <;> cases h
      · exact ⟨value.name, rfl⟩
      · exact ⟨value.interfaces, rfl⟩
  | interface =>
      cases hentries
      rcases List.mem_pair.1 hmem with h | h <;> cases h
      · exact ⟨value.name, rfl⟩
      · exact ⟨value.methods, rfl⟩
  | method =>
      cases hentries
      rcases List.mem_cons.1 hmem with h | h
      · cases h
        exact ⟨value.name, rfl⟩
      · exact exists_value_of_signature h
  | parameter =>
      cases hentries
      rcases List.mem_pair.1 hmem with h | h <;> cases h
      · exact ⟨value.name, rfl⟩
      · exact ⟨value.type, rfl⟩
  | field =>
      cases hentries
      rcases List.mem_pair.1 hmem with h | h <;> cases h
      · exact ⟨value.name, rfl⟩
      · exact ⟨value.type, rfl⟩
  | variant kind => exact exists_value_of_type_entry hentries hmem

end Entries

section Compact

theorem objectText_compact (entries : List (String × Json)) :
    ObjectText (entries.map fun entry => (utf8 (quoted entry.1), utf8 entry.2.compact))
      (utf8 (Json.object entries).compact) := by
  have h := objectText_bracedTexts (entries.map fun entry => (entry.1, entry.2.compact))
  rwa [List.map_map, ← compact_object] at h

theorem formText_braced (members : List (String × Bytes)) :
    FormText (.entries members) (braced members) := by
  refine ⟨_, objectText_braced members, ?_⟩
  rw [List.forall₂_map_right_iff, List.forall₂_same]
  exact fun member _ => ⟨stringText_quoted member.1, rfl⟩

theorem arrayText_compact (items : List Json) :
    ArrayText (items.map fun item => utf8 item.compact) (utf8 (Json.array items).compact) := by
  have h := arrayText_bracketedTexts (items.map Json.compact)
  rwa [List.map_map, ← compact_array] at h

theorem depth_lt_of_mem_items {item : Json} {items : List Json} (h : item ∈ items) :
    item.depth < (Json.array items).depth := by
  rw [Json.depth, Nat.lt_succ_iff]
  exact Json.itemsDepth_le_iff.1 (Nat.le_refl _) item h

theorem depth_lt_of_mem_entries {entry : String × Json} {entries : List (String × Json)}
    (h : entry ∈ entries) : entry.2.depth < (Json.object entries).depth := by
  rw [Json.depth, Nat.lt_succ_iff]
  exact Json.entriesDepth_le_iff.1 (Nat.le_refl _) entry h

/-- The target is neither optional nor nothing, nor a list of such. -/
def Target.Present : Target → Prop
  | .optional _ | .unit => False
  | .sequence target => target.Present
  | _ => True

theorem present_entryTarget (key : String) : (entryTarget key).Present := by
  unfold entryTarget
  split <;> trivial

/-- A wire form is a scalar, a list of wire forms or a record of wire forms. -/
theorem wireForm_cases {target : Target} (htarget : target.Present) (value : target.Value) :
    (∃ text, wireForm target value = .string text) ∨
      (∃ n : Int64, wireForm target value = .int n.toInt) ∨
      (∃ (item : Target) (values : List item.Value), item.Present ∧ target = .sequence item ∧
        wireForm target value = .array (values.map (wireForm item))) ∨
      ∃ (shape : Shape) (entries : List (String × Json)) (record : shape.target.Value),
        shape.target = target ∧ shape.HasKind entries ∧
          wireForm shape.target record = .object entries ∧
          wireForm target value = .object entries := by
  cases target with
  | text => exact .inl ⟨value, rfl⟩
  | int64 => exact .inr (.inl ⟨value, rfl⟩)
  | dir => exact .inl ⟨value.name, rfl⟩
  | kind => exact .inl ⟨value.name, rfl⟩
  | unit => exact htarget.elim
  | optional target => exact htarget.elim
  | sequence item => exact .inr (.inr (.inl ⟨item, value, htarget, rfl, rfl⟩))
  | type =>
      obtain ⟨entries, hentries⟩ : ∃ entries, wireForm .type value = .object entries :=
        exists_entries_of_target (.variant .named) rfl
      obtain ⟨kind, rest, rfl, -⟩ := exists_kind_of_type hentries
      exact .inr (.inr (.inr
        ⟨.variant kind, _, value, rfl, List.mem_cons_self, hentries, hentries⟩))
  | parameter => exact .inr (.inr (.inr ⟨.parameter, _, value, rfl, trivial, rfl, rfl⟩))
  | field => exact .inr (.inr (.inr ⟨.field, _, value, rfl, trivial, rfl, rfl⟩))
  | method => exact .inr (.inr (.inr ⟨.method, _, value, rfl, trivial, rfl, rfl⟩))
  | interface => exact .inr (.inr (.inr ⟨.interface, _, value, rfl, trivial, rfl, rfl⟩))
  | package => exact .inr (.inr (.inr ⟨.package, _, value, rfl, trivial, rfl, rfl⟩))

/-- A value without words and without numbers that 64 bits do not hold. -/
inductive Plain : Json → Prop
  | string (text : String) : Plain (.string text)
  | int {n : Int} : -2 ^ 63 ≤ n → n < 2 ^ 64 → Plain (.int n)
  | array {items : List Json} : (∀ item ∈ items, Plain item) → Plain (.array items)
  | object {entries : List (String × Json)} : (∀ entry ∈ entries, Plain entry.2) →
      Plain (.object entries)

theorem plain_int64 (n : Int64) : Plain (.int n.toInt) :=
  .int n.le_toInt (Int.lt_trans n.toInt_lt (by decide))

/-- Wire forms are plain. -/
theorem plain_wireForm (target : Target) (htarget : target.Present) (value : target.Value) :
    Plain (wireForm target value) := by
  induction hdepth : (wireForm target value).depth using Nat.strongRecOn
    generalizing target value with
  | _ depth ih =>
      subst hdepth
      rcases wireForm_cases htarget value with ⟨text, heq⟩ | ⟨n, heq⟩ |
        ⟨item, values, hitem, -, heq⟩ | ⟨shape, entries, record, -, -, hentries, heq⟩
      · rw [heq]
        exact .string text
      · rw [heq]
        exact plain_int64 n
      · rw [heq] at ih ⊢
        refine .array fun tree htree => ?_
        obtain ⟨part, hpart, rfl⟩ := List.mem_map.1 htree
        exact ih _ (depth_lt_of_mem_items htree) item hitem part rfl
      · rw [heq] at ih ⊢
        refine .object fun entry hentry => ?_
        rcases entry with ⟨key, tree⟩
        obtain ⟨part, rfl⟩ := exists_value_of_entry hentries hentry
        exact ih _ (depth_lt_of_mem_entries hentry) _ (present_entryTarget key) part rfl

/-- The compact text of a plain value denotes the value. -/
theorem Plain.valueText {tree : Json} (h : Plain tree) : ValueText (utf8 tree.compact) tree := by
  induction h with
  | string text => exact .string (stringText_quoted text)
  | int hlow hhigh => exact valueText_signedNumeral hlow hhigh
  | @array items _ ih =>
      refine .of_forall₂_items (arrayText_compact items) ?_
      rw [List.forall₂_map_left_iff, List.forall₂_same]
      exact ih
  | @object entries _ ih =>
      refine .of_forall₂_entries (objectText_compact entries) ?_
      rw [List.forall₂_map_left_iff, List.forall₂_same]
      exact fun entry hentry => ⟨stringText_quoted entry.1, ih entry hentry⟩

theorem valueText_int64 (n : Int64) : ValueText (utf8 (Json.int n.toInt).compact) (.int n.toInt) :=
  (plain_int64 n).valueText

/-- The compact text of a wire form denotes the wire form. -/
theorem valueText_compact (target : Target) (htarget : target.Present) (value : target.Value) :
    ValueText (utf8 (wireForm target value).compact) (wireForm target value) :=
  (plain_wireForm target htarget value).valueText

end Compact

section Objects

variable {members : List (String × Bytes)} {entries : List (String × Json)} {text : Bytes}

/-- The members of an object are the entries, with texts that denote their values. -/
def Shows (members : List (String × Bytes)) (entries : List (String × Json)) : Prop :=
  List.Forall₂ (fun member entry => member.1 = entry.1 ∧ ValueText member.2 entry.2)
    members entries

/-- A text that denotes an object has its entries for members. -/
theorem exists_shows (h : ValueText text (.object entries)) :
    ∃ members, FormText (.entries members) text ∧ Shows members entries := by
  obtain ⟨texts, htext, hentries⟩ := valueText_object_iff.1 h
  have hmembers : ∃ members : List (String × Bytes),
      List.Forall₂ (fun member texts => StringText texts.1 member.1 ∧ texts.2 = member.2)
        members texts ∧ Shows members entries := by
    clear h htext
    induction hentries with
    | nil => exact ⟨[], .nil, .nil⟩
    | @cons texts entry _ _ hentry _ ih =>
        obtain ⟨members, htexts, hshows⟩ := ih
        exact ⟨(entry.1, texts.2) :: members, .cons ⟨hentry.1, rfl⟩ htexts,
          .cons ⟨rfl, hentry.2⟩ hshows⟩
  obtain ⟨members, htexts, hshows⟩ := hmembers
  exact ⟨members, ⟨texts, htext, htexts⟩, hshows⟩

theorem Shows.keys (h : Shows members entries) :
    members.map Prod.fst = entries.map Prod.fst := by
  induction h with
  | nil => rfl
  | cons hmember _ ih => rw [List.map_cons, List.map_cons, hmember.1, ih]

theorem Shows.exists_entry (h : Shows members entries) {member : String × Bytes}
    (hmember : member ∈ members) :
    ∃ tree, (member.1, tree) ∈ entries ∧ ValueText member.2 tree := by
  obtain ⟨⟨key, tree⟩, hentry, rfl, htree⟩ := exists_related_of_mem h hmember
  exact ⟨tree, hentry, htree⟩

theorem Shows.exists_member (h : Shows members entries) {key : String} {tree : Json}
    (hentry : (key, tree) ∈ entries) :
    ∃ part, (key, part) ∈ members ∧ ValueText part tree := by
  obtain ⟨⟨_, part⟩, hmember, rfl, hpart⟩ := exists_related_of_mem h.flip hentry
  exact ⟨part, hmember, hpart⟩

theorem Shows.wellFormed (h : Shows members entries) :
    ∀ member ∈ members, WellFormed member.2 := by
  intro member hmember
  obtain ⟨tree, -, htree⟩ := h.exists_entry hmember
  exact htree.wellFormed

end Objects

section Values

variable {X : Type} {members : List (String × X)} {key : String} {x : X}

theorem valuesAt_of_not_mem (h : key ∉ members.map Prod.fst) : valuesAt members key = [] := by
  rw [valuesAt, List.map_eq_nil_iff, List.filter_eq_nil_iff]
  intro member hmember hkey
  exact h (List.mem_map.2 ⟨member, hmember, of_decide_eq_true hkey⟩)

theorem valuesAt_of_mem (hnodup : (members.map Prod.fst).Nodup) (h : (key, x) ∈ members) :
    valuesAt members key = [x] := by
  induction members with
  | nil => cases h
  | cons member members ih =>
      rcases member with ⟨name, y⟩
      rw [List.map_cons, List.nodup_cons] at hnodup
      rw [valuesAt_cons]
      rcases List.mem_cons.1 h with heq | hmem
      · cases heq
        rw [if_pos rfl, valuesAt_of_not_mem hnodup.1]
      · have hne : name ≠ key := by
          rintro rfl
          exact hnodup.1 (List.mem_map.2 ⟨_, hmem, rfl⟩)
        rw [if_neg hne, ih hnodup.2 hmem]

end Values

section Levels

variable {levels : Nat} {inType : Bool} {shape : Shape} {record : shape.target.Value}
  {entries : List (String × Json)} {members : List (String × Bytes)} {text : Bytes}

/-- A text of a record gives each key its value, and no other key any. -/
theorem spells_record (hentries : wireForm shape.target record = .object entries)
    (hkind : shape.HasKind entries) (htext : FormText (.entries members) text)
    (hshows : Shows members entries)
    (hinside : ∀ (key : String) (value : (entryTarget key).Value) (part : Bytes),
      (key, wireForm (entryTarget key) value) ∈ entries →
      ValueText part (wireForm (entryTarget key) value) →
      Spells Ignorable levels (inType || shape.isBuffered) (entryTarget key)
        (wireForm (entryTarget key) value) part) :
    Spells Ignorable (levels + 1) inType shape.target (.object entries) text := by
  have hkeys := keys_sublist_known hentries hkind
  refine ⟨shape, members, rfl, hkind, htext, fun key _ => ?_, fun member hmember hunknown => ?_⟩
  · by_cases hmem : key ∈ entries.map Prod.fst
    · obtain ⟨⟨name, tree⟩, hentry, rfl⟩ := List.mem_map.1 hmem
      obtain ⟨part, hpart, htree⟩ := hshows.exists_member hentry
      rw [valuesAt_of_mem (hshows.keys ▸ hkeys.nodup (nodup_known shape)) hpart]
      obtain ⟨value, rfl⟩ := exists_value_of_entry hentries hentry
      exact .written hentry (hinside name value part hentry htree)
    · rw [valuesAt_of_not_mem (hshows.keys ▸ hmem)]
      exact .absent hmem
  · obtain ⟨tree, hentry, -⟩ := hshows.exists_entry hmember
    exact absurd (hkeys.subset (List.mem_map_of_mem hentry)) hunknown

/-- A text of a wire form within the levels is one of its spellings. -/
theorem spells_of_valueText (inType : Bool) (target : Target) (htarget : target.Present)
    {value : target.Value} (htext : ValueText text (wireForm target value))
    (hlevels : (wireForm target value).depth ≤ levels) :
    Spells Ignorable levels inType target (wireForm target value) text := by
  induction hdepth : (wireForm target value).depth using Nat.strongRecOn
    generalizing levels inType target value text with
  | _ depth ih =>
      subst hdepth
      rcases wireForm_cases htarget value with ⟨text, heq⟩ | ⟨n, heq⟩ |
        ⟨item, values, hitem, rfl, heq⟩ | ⟨shape, entries, record, rfl, hkind, hentries, heq⟩
      · rw [heq] at htext ⊢
        cases htext with
        | string hstring => exact spells_string_iff.2 hstring
      · rw [heq] at htext ⊢
        exact spells_number_iff.2 htext
      · rw [heq] at ih htext hlevels ⊢
        obtain ⟨texts, harray, hitems⟩ := valueText_array_iff.1 htext
        cases levels with
        | zero => exact absurd hlevels (Nat.not_succ_le_zero _)
        | succ levels =>
            refine ⟨texts, harray, List.forall₂_iff_zip.2 ⟨hitems.length_eq.symm, ?_⟩⟩
            intro tree part hmem
            have hpart := List.forall₂_zip hitems.flip hmem
            have htree := (List.of_mem_zip hmem).1
            have hlt := depth_lt_of_mem_items htree
            obtain ⟨value, -, rfl⟩ := List.mem_map.1 htree
            exact ih _ hlt _ item hitem hpart (by omega) rfl
      · rw [heq] at ih htext hlevels ⊢
        obtain ⟨members, hform, hshows⟩ := exists_shows htext
        cases levels with
        | zero => exact absurd hlevels (Nat.not_succ_le_zero _)
        | succ levels =>
            refine spells_record hentries hkind hform hshows fun key value part hmem hpart => ?_
            have hlt : (wireForm (entryTarget key) value).depth < (Json.object entries).depth :=
              depth_lt_of_mem_entries hmem
            exact ih _ hlt _ _ (present_entryTarget key) hpart (by omega) rfl

/-- The compact text of a wire form within the levels is one of its spellings. -/
theorem spells_compact (inType : Bool) (target : Target) (htarget : target.Present)
    (value : target.Value) (hlevels : (wireForm target value).depth ≤ levels) :
    Spells Ignorable levels inType target (wireForm target value)
      (utf8 (wireForm target value).compact) :=
  spells_of_valueText inType target htarget (valueText_compact target htarget value) hlevels

/-- No text of a wire form is the word for an absent value. -/
theorem ne_null_of_valueText {target : Target} (htarget : target.Present) {value : target.Value}
    (h : ValueText text (wireForm target value)) : text ≠ nullText :=
  (spells_of_valueText false target htarget h (Nat.le_refl _)).ne_null

theorem slot_target (slot : Slot) :
    slot.target = entryTarget slot.label ∨ slot.target = .optional (entryTarget slot.label) := by
  cases slot <;> decide

/-- A text that means a present value of an optional target means the value. -/
theorem exists_textMeans_of_optional {target : Target}
    {found : (Target.optional target).Value} (hnull : text ≠ nullText)
    (h : TextMeans levels text (.optional target) found) :
    ∃ present, TextMeans levels text target present := by
  cases levels with
  | zero =>
      rcases h with ⟨htext, -⟩ | ⟨-, present, -, hpresent⟩
      · exact absurd htext hnull
      · exact ⟨present, hpresent⟩
  | succ levels =>
      rcases h with ⟨htext, -⟩ | ⟨-, present, -, hpresent⟩
      · exact absurd htext hnull
      · exact ⟨present, hpresent⟩

/-- A record whose text has a meaning is within the levels if its entries are. -/
theorem depth_le_of_recordText (hentries : wireForm shape.target record = .object entries)
    (hkeys : (entries.map Prod.fst).Sublist shape.keys) {found : shape.target.Value}
    (htext : FormText (.entries members) text) (hshows : Shows members entries)
    (h : RecordText (levels + 1) (TextMeans levels) shape text found)
    (hinside : ∀ (key : String) (value found : (entryTarget key).Value) (part : Bytes),
      (key, wireForm (entryTarget key) value) ∈ entries →
      ValueText part (wireForm (entryTarget key) value) →
      TextMeans levels part (entryTarget key) found →
      (wireForm (entryTarget key) value).depth ≤ levels) :
    (Json.object entries).depth ≤ levels + 1 := by
  rcases h with ⟨-, form, hform, hrecord⟩
  obtain rfl := IsRecord.entries_eq hrecord hform TextMeans.wellFormed htext hshows.wellFormed
  rw [Json.depth, Nat.add_le_add_iff_right, Json.entriesDepth_le_iff]
  rintro ⟨key, tree⟩ hentry
  obtain ⟨part, hmember, hpart⟩ := hshows.exists_member hentry
  obtain ⟨value, rfl⟩ := exists_value_of_entry hentries hentry
  obtain ⟨slot, -, rfl, found, hfound⟩ := exists_meaning_of_describes shape hrecord.known hmember
    (hkeys.subset (List.mem_map_of_mem hentry))
  have hmeans : ∃ found, TextMeans levels part slot.target found := ⟨found, hfound⟩
  rcases slot_target slot with hslot | hslot
  · rw [hslot] at hmeans
    rcases hmeans with ⟨found, hfound⟩
    exact hinside _ value found part hentry hpart hfound
  · rw [hslot] at hmeans
    rcases hmeans with ⟨found, hfound⟩
    obtain ⟨present, hpresent⟩ := exists_textMeans_of_optional
      (ne_null_of_valueText (present_entryTarget _) hpart) hfound
    exact hinside _ value present part hentry hpart hpresent

/-- A text of a sequence is read only where its items fit the levels within. -/
theorem depth_le_of_arrayText {item : Target} {values found : List item.Value}
    {texts others : List Bytes} (htexts : ArrayText texts text)
    (hvalues : List.Forall₂ ValueText texts (values.map (wireForm item)))
    (hothers : ArrayText others text)
    (hmeans : List.Forall₂ (fun text found => TextMeans levels text item found) others found)
    (hinside : ∀ (value found : item.Value) (part : Bytes),
      wireForm item value ∈ values.map (wireForm item) → ValueText part (wireForm item value) →
      TextMeans levels part item found → (wireForm item value).depth ≤ levels) :
    (Json.array (values.map (wireForm item))).depth ≤ levels + 1 := by
  have hwell : ∀ text ∈ texts, WellFormed text := by
    intro text htext
    obtain ⟨tree, -, htree⟩ := exists_related_of_mem hvalues htext
    exact htree.wellFormed
  have hothersWell : ∀ text ∈ others, WellFormed text := by
    intro text htext
    obtain ⟨part, -, hpart⟩ := exists_related_of_mem hmeans htext
    exact TextMeans.wellFormed hpart
  obtain rfl := ArrayText.unique htexts hothers hwell hothersWell
  rw [Json.depth, Nat.add_le_add_iff_right, Json.itemsDepth_le_iff]
  intro tree htree
  obtain ⟨part, hmem, hpart⟩ := exists_related_of_mem hvalues.flip htree
  obtain ⟨read, -, hread⟩ := exists_related_of_mem hmeans hmem
  obtain ⟨value, -, rfl⟩ := List.mem_map.1 htree
  exact hinside value read part htree hpart hread

/-- A text of a wire form has a meaning within the levels only. -/
theorem depth_le_of_textMeans (target : Target) (htarget : target.Present)
    {value found : target.Value} (htext : ValueText text (wireForm target value))
    (h : TextMeans levels text target found) : (wireForm target value).depth ≤ levels := by
  induction hdepth : (wireForm target value).depth using Nat.strongRecOn
    generalizing levels target value found text with
  | _ depth ih =>
      subst hdepth
      rcases wireForm_cases htarget value with ⟨text, heq⟩ | ⟨n, heq⟩ |
        ⟨item, values, hitem, rfl, heq⟩ | ⟨shape, entries, record, rfl, hkind, hentries, heq⟩
      · rw [heq]
        exact Nat.zero_le levels
      · rw [heq]
        exact Nat.zero_le levels
      · rw [heq] at ih htext ⊢
        obtain ⟨texts, harray, hvalues⟩ := valueText_array_iff.1 htext
        cases levels with
        | zero => exact absurd h.1 (Nat.lt_irrefl 0)
        | succ levels =>
            rcases h with ⟨-, others, hothers, hmeans⟩
            refine depth_le_of_arrayText harray hvalues hothers hmeans
              fun value read part htree hpart hread => ?_
            exact ih _ (depth_lt_of_mem_items htree) item hitem hpart hread rfl
      · -- types and fields are read from a tree, which has the depth of the wire form
        have hbuffered {tree : Json} (htree : ValueText text tree) (hdepth : tree.depth ≤ levels) :
            (wireForm shape.target value).depth ≤ levels := by
          rwa [ValueText.unique htext htree]
        cases shape with
        | variant kind =>
            obtain ⟨form, htree, hdepth, -⟩ : TypeText levels text found := by
              cases levels <;> exact h
            exact hbuffered htree hdepth
        | field =>
            obtain ⟨tree, htree, hdepth, -⟩ : TreeText levels text .field found := by
              cases levels <;> exact h
            exact hbuffered htree hdepth
        | package | interface | method | parameter =>
            rw [heq] at ih htext ⊢
            obtain ⟨members, hform, hshows⟩ := exists_shows htext
            cases levels with
            | zero => exact absurd h.1 (Nat.lt_irrefl 0)
            | succ levels =>
                refine depth_le_of_recordText hentries (keys_sublist_known hentries hkind) hform
                  hshows h fun key value read part hmem hpart hread => ?_
                have hlt := depth_lt_of_mem_entries hmem
                exact ih _ hlt _ (present_entryTarget key) hpart hread rfl

end Levels

end InterfaceProbe
