/-
# Reports written again

What was read from a text nests, when it is written again, at most one level
deeper than the text was allowed to.  The wire form has a list for every field
that may hold one, also where the text left the field out, and nothing else that
is left out has brackets.  So the level more is that of an empty list, and the
record it belongs to stood at the last level of the text.

Values that were skipped are not written again, and a direction given as an
object is written as a string, so neither counts.
-/

import InterfaceProbe.Proofs.Wire.BothReadings
import InterfaceProbe.Proofs.Wire.Mutations

namespace InterfaceProbe

open Grammar Reader

section Omissions

/-- The text is that of a record, which is described by the form.  For the variant of a type this
is what the kind leaves of the text. -/
def RecordForm : Shape → Bytes → Form Bytes → Prop
  | .variant kind, text, form =>
    ∃ whole tag, FormOf whole text ∧ whole.Tagged tag form ∧ Denoted tag .kind kind
  | _, text, form => FormOf form text

/-- The records in a text that is read for a target, each with its level: the number of arrays and
objects that are open inside it. -/
inductive Holds : Nat → Target → Bytes → Shape → Form Bytes → Prop
  | here {shape : Shape} {text : Bytes} {form : Form Bytes} :
      RecordForm shape text form → Holds 1 shape.target text shape form
  | present {level : Nat} {target : Target} {text : Bytes} {shape : Shape} {form : Form Bytes} :
      Holds level target text shape form → Holds level (.optional target) text shape form
  | item {level : Nat} {target : Target} {items : List Bytes} {text item : Bytes} {shape : Shape}
      {form : Form Bytes} :
      FormOf (.items items) text → item ∈ items → Holds level target item shape form →
      Holds (level + 1) (.sequence target) text shape form
  | slot {level : Nat} {outer shape : Shape} {whole form : Form Bytes} {slot : Slot}
      {text value : Bytes} :
      RecordForm outer text whole → slot ∈ outer.record.slots →
      (slot.label, value) ∈ whole.members outer.keys → Holds level slot.target value shape form →
      Holds (level + 1) outer.target text shape form

/-- A record at the level leaves out a field that is then written as an empty list. -/
def OmitsList (level : Nat) (target : Target) (text : Bytes) : Prop :=
  ∃ (shape : Shape) (form : Form Bytes) (slot : Slot) (default : slot.Value),
    Holds level target text shape form ∧ slot ∈ shape.record.slots ∧
      valuesAt (form.members shape.keys) slot.label = [] ∧
      slot.default? = some default ∧ wireForm slot.target default = .array []

variable {level levels : Nat} {target other : Target} {text part : Bytes}

theorem OmitsList.of_holds (h : OmitsList level other part)
    (hholds : ∀ {shape form}, Holds level other part shape form →
      Holds levels target text shape form) : OmitsList levels target text := by
  rcases h with ⟨shape, form, slot, default, hpart, hslot, homitted, hdefault, hform⟩
  exact ⟨shape, form, slot, default, hholds hpart, hslot, homitted, hdefault, hform⟩

/-- What is left out of a record is written as an empty list or without brackets. -/
theorem wireForm_default {slot : Slot} {default : slot.Value}
    (h : slot.default? = some default) :
    wireForm slot.target default = .array [] ∨ (wireForm slot.target default).depth = 0 := by
  cases slot <;> cases h <;> first | exact .inl rfl | exact .inr rfl

end Omissions

section Steps

variable {levels : Nat} {target : Target} {text : Bytes} {value : target.Value}
  {means : Bytes → Meaning}

/-- What is read within the levels is written with at most one level more, and with one more only
for a list that was left out. -/
structure Rewritten (levels : Nat) (target : Target) (text : Bytes) (value : target.Value) :
    Prop where
  depth_le : (wireForm target value).depth ≤ levels + 1
  omits : levels < (wireForm target value).depth → OmitsList levels target text

theorem Rewritten.of_scalar (h : (wireForm target value).depth = 0) :
    Rewritten levels target text value where
  depth_le := h ▸ Nat.zero_le _
  omits hdeep := absurd (h ▸ hdeep) (Nat.not_lt_zero levels)

theorem Rewritten.present (h : Rewritten levels target text value) :
    Rewritten levels (.optional target) text (some value) where
  depth_le := h.depth_le
  omits hdeep := (h.omits hdeep).of_holds .present

/-- An array or an object is as deep as its parts make it. -/
theorem Rewritten.of_parts (trees : Form Json) (hform : wireForm target value = trees.json)
    (hparts : ∀ part ∈ trees.values, part.depth ≤ levels + 1 ∧
      (levels < part.depth → OmitsList (levels + 1) target text)) :
    Rewritten (levels + 1) target text value := by
  refine ⟨?_, fun hdeep => ?_⟩
  · rw [hform, Form.depth_json_le_iff]
    exact fun part hpart => (hparts part hpart).1
  · rw [hform, ← Nat.not_le, Form.depth_json_le_iff] at hdeep
    simp only [not_forall, Nat.not_le] at hdeep
    obtain ⟨part, hpart, hlt⟩ := hdeep
    exact (hparts part hpart).2 hlt

theorem Rewritten.sequence {items : List Bytes} {values : List target.Value}
    (hform : FormOf (.items items) text)
    (hitems : List.Forall₂ (fun item value => means item target value) items values)
    (hinner : ∀ item ∈ items, ∀ value, means item target value →
      Rewritten levels target item value) :
    Rewritten (levels + 1) (.sequence target) text values := by
  refine Rewritten.of_parts (.items (values.map (wireForm target))) rfl
    fun part hpart => ?_
  obtain ⟨value, hvalue, rfl⟩ := List.mem_map.1 hpart
  obtain ⟨item, hitem, hmeans⟩ := exists_related_of_mem hitems.flip hvalue
  have hwritten := hinner item hitem value hmeans
  exact ⟨hwritten.depth_le, fun hdeep => (hwritten.omits hdeep).of_holds (.item hform hitem)⟩

theorem get_cases {X : Type} {means : X → Meaning} {members : List (String × X)} {draft : Draft}
    {slot : Slot} {value : slot.Value} (hread : SlotRead means members slot none (draft slot))
    (hget : draft.get slot = .ok value) :
    valuesAt members slot.label = [] ∧ slot.default? = some value ∨
      ∃ x, (slot.label, x) ∈ members ∧ means x slot.target value := by
  rw [Draft.get] at hget
  rcases hread with ⟨hnil, hnone⟩ | ⟨-, x, found, hx, hfound, hsome⟩
  · rw [hnone, Option.none_or] at hget
    split at hget
    · next hdefault =>
      cases hget
      exact .inl ⟨hnil, hdefault⟩
    · cases hget
  · rw [hsome, Option.some_or] at hget
    cases hget
    exact .inr ⟨x, mem_of_valuesAt_eq hx, hfound⟩

/-- What a record is written as: its kind, and the wire forms of what its slots hold. -/
theorem part_cases {shape : Shape} {draft : Draft} {part : Json}
    (h : part ∈ (Form.entries
      (shape.kindEntries ++ shape.record.slots.flatMap draft.entriesAt)).values) :
    part.depth = 0 ∨ ∃ slot ∈ shape.record.slots, ∃ value : slot.Value,
      draft.get slot = .ok value ∧ part = wireForm slot.target value := by
  obtain ⟨entry, hentry, rfl⟩ := List.mem_map.1 h
  rcases List.mem_append.1 hentry with hkind | hslots
  · cases shape with
    | variant kind =>
        obtain rfl := List.mem_singleton.1 hkind
        exact .inl rfl
    | _ => cases hkind
  · obtain ⟨slot, hslot, hentry⟩ := List.mem_flatMap.1 hslots
    cases hget : draft.get slot with
    | error fault =>
        rw [Draft.entriesAt, hget] at hentry
        cases hentry
    | ok value =>
        rw [Draft.entriesAt_of_get hget] at hentry
        refine .inr ⟨slot, hslot, value, hget, ?_⟩
        cases htree : wireForm slot.target value with
        | null =>
            rw [htree] at hentry
            cases hentry
        | _ =>
            rw [htree] at hentry
            exact congrArg Prod.snd (List.mem_singleton.1 hentry)

section Slots

variable {shape : Shape} {form : Form Bytes} (hform : RecordForm shape text form)
  (hinner : ∀ slot ∈ shape.record.slots, ∀ part, (slot.label, part) ∈ form.members shape.keys →
    ∀ found, means part slot.target found → Rewritten levels slot.target part found)

include hform hinner

/-- What a slot holds was given, and is written as that is, or it is a default. -/
theorem part_of_slot {draft : Draft} {slot : Slot} {found : slot.Value}
    (hslot : slot ∈ shape.record.slots)
    (hread : SlotRead means (form.members shape.keys) slot none (draft slot))
    (hget : draft.get slot = .ok found) :
    (wireForm slot.target found).depth ≤ levels + 1 ∧
      (levels < (wireForm slot.target found).depth →
        OmitsList (levels + 1) shape.target text) := by
  rcases get_cases hread hget with ⟨homitted, hdefault⟩ | ⟨part, hpart, hfound⟩
  · rcases wireForm_default hdefault with hlist | hscalar
    · -- an empty list is a level of its own only when no other is left
      rw [hlist]
      refine ⟨Nat.succ_le_succ (Nat.zero_le levels), fun hdeep => ?_⟩
      obtain rfl : levels = 0 := Nat.lt_one_iff.1 hdeep
      exact ⟨shape, form, slot, found, .here hform, hslot, homitted, hdefault, hlist⟩
    · rw [hscalar]
      exact ⟨Nat.zero_le _, fun hdeep => absurd hdeep (Nat.not_lt_zero levels)⟩
  · have hwritten := hinner slot hslot part hpart found hfound
    exact ⟨hwritten.depth_le,
      fun hdeep => (hwritten.omits hdeep).of_holds (.slot hform hslot hpart)⟩

/-- A record is written with what its slots were given and with the defaults of the others. -/
theorem Rewritten.record (hmeans : Functional means) {value : shape.target.Value}
    (h : shape.Describes (meanings means (form.members shape.keys)) value) :
    Rewritten (levels + 1) shape.target text value := by
  obtain ⟨draft, hread, -⟩ := exists_draft_of_readable (readable_of_describes shape h)
  have hbuild := (build_eq_ok_iff hmeans shape hread).2 h
  refine Rewritten.of_parts (.entries _) (wireForm_of_build shape hbuild)
    fun part hpart => ?_
  rcases part_cases hpart with hscalar | ⟨slot, hslot, found, hget, rfl⟩
  · rw [hscalar]
    exact ⟨Nat.zero_le _, fun hdeep => absurd hdeep (Nat.not_lt_zero levels)⟩
  · exact part_of_slot hform hinner hslot (hread slot hslot) hget

end Slots

end Steps

section Trees

variable {levels : Nat} {target : Target} {text : Bytes} {value : target.Value}

theorem recordForm_iff {shape : Shape} (h : shape.target ≠ .type) {form : Form Bytes} :
    RecordForm shape text form ↔ FormOf form text := by
  cases shape with
  | variant kind => exact absurd rfl h
  | _ => exact Iff.rfl

/-- An array or an object within the levels has its values within one less. -/
theorem FormOf.exists_levels {form : Form Bytes} (h : FormOf form text)
    (htrees : ∀ value ∈ form.values, DenotesTree value) (hnests : NestsWithin levels text) :
    ∃ inner, levels = inner + 1 ∧ ∀ value ∈ form.values, NestsWithin inner value := by
  obtain ⟨tree, htree⟩ := h.denotesTree htrees
  obtain ⟨inner, rfl⟩ : ∃ inner, levels = inner + 1 :=
    Nat.exists_eq_add_one.2 (Nat.lt_of_lt_of_le (h.depth_pos htree) (hnests tree htree))
  exact ⟨inner, rfl, (h.depth_le_succ_iff htree).1 (hnests tree htree)⟩

section Inside

variable (hnests : NestsWithin levels text)
  (hinner : ∀ {inner : Nat} {target : Target} {text : Bytes} {value : target.Value},
    levels = inner + 1 → NestsWithin inner text → Denoted text target value →
      Rewritten inner target text value)

include hnests hinner

theorem rewritten_of_denoted_record (shape : Shape) (hshape : shape.target ≠ .type)
    {value : shape.target.Value} (h : Denoted text shape.target value) :
    Rewritten levels shape.target text value := by
  obtain ⟨form, hform, htrees, hmeaning⟩ :=
    exists_form_of_denoted (fun scalar => scalarMeaning_record hshape scalar value) h
  rw [formMeaning_record_iff hshape, isRecord_map_iff] at hmeaning
  obtain ⟨inner, rfl, hvalues⟩ := hform.exists_levels htrees hnests
  refine .record ((recordForm_iff hshape).2 hform) (fun slot _ part hpart found hfound => ?_)
    functional_denoted hmeaning.known
  exact hinner rfl (hvalues part (Form.mem_values_of_mem_members hpart)) hfound

theorem rewritten_of_denoted_type {type : GoType} (h : Denoted text .type type) :
    Rewritten levels .type text type := by
  obtain ⟨form, hform, htrees, _, _, kind, htagged, hkind, hmeaning⟩ :=
    exists_form_of_denoted (fun _ => id) h
  obtain ⟨tag, rest, hplace, rfl, rfl⟩ := (Form.tagged_map_iff Denoted form _ _).1 htagged
  rw [isRecord_map_iff] at hmeaning
  obtain ⟨inner, rfl, hvalues⟩ := hform.exists_levels htrees hnests
  have hrecord : RecordForm (.variant kind) text rest := ⟨form, tag, hform, hplace, hkind⟩
  refine .record hrecord (fun slot _ part hpart found hfound => ?_) functional_denoted
    hmeaning.known
  have hmem := hplace.values_subset (Form.mem_values_of_mem_members hpart)
  exact hinner rfl (hvalues part hmem) hfound

theorem rewritten_of_denoted_sequence {values : List target.Value}
    (h : Denoted text (.sequence target) values) :
    Rewritten levels (.sequence target) text values := by
  obtain ⟨form, hform, htrees, _, heq, hitems⟩ := exists_form_of_denoted (fun _ => id) h
  cases form with
  | entries members => cases heq
  | items items =>
      cases heq
      rw [List.forall₂_map_left_iff] at hitems
      obtain ⟨inner, rfl, hvalues⟩ := hform.exists_levels htrees hnests
      exact .sequence hform hitems fun item hitem value hvalue =>
        hinner rfl (hvalues item hitem) hvalue

end Inside

/-- What is read from the tree of a text is written again. -/
theorem rewritten_of_denoted (hnests : NestsWithin levels text) (h : Denoted text target value) :
    Rewritten levels target text value := by
  induction levels using Nat.strongRecOn generalizing target text value with
  | _ levels ih =>
      have hinner {inner : Nat} {target : Target} {text : Bytes} {value : target.Value}
          (hlevels : levels = inner + 1) : NestsWithin inner text → Denoted text target value →
            Rewritten inner target text value :=
        ih inner (by omega)
      induction target with
      | text | int64 | dir | kind | unit => exact .of_scalar rfl
      | parameter => exact rewritten_of_denoted_record hnests hinner .parameter (by decide) h
      | field => exact rewritten_of_denoted_record hnests hinner .field (by decide) h
      | method => exact rewritten_of_denoted_record hnests hinner .method (by decide) h
      | interface => exact rewritten_of_denoted_record hnests hinner .interface (by decide) h
      | package => exact rewritten_of_denoted_record hnests hinner .package (by decide) h
      | type => exact rewritten_of_denoted_type hnests hinner h
      | sequence target => exact rewritten_of_denoted_sequence hnests hinner h
      | optional target ihTarget =>
          rcases h with ⟨tree, htree, hmeaning⟩
          cases tree with
          | null =>
              obtain rfl : value = none := hmeaning
              exact .of_scalar rfl
          | _ =>
              obtain ⟨present, rfl, hpresent⟩ := hmeaning
              exact .present (ihTarget ⟨_, htree, hpresent⟩)

theorem rewritten_of_treeText (h : TreeText levels text target value) :
    Rewritten levels target text value := by
  rcases h with ⟨tree, htree, hdepth, hmeaning⟩
  refine rewritten_of_denoted (fun part hpart => ?_) ⟨tree, htree, hmeaning⟩
  rwa [ValueText.unique hpart htree]

end Trees

section Texts

variable {levels : Nat} {text : Bytes} {inner : Bytes → Meaning}

/-- What is read while a text goes by is written again if what is one level in is. -/
theorem rewritten_of_textMeaning (hfunctional : Functional inner)
    (hwell : ∀ {text target value}, inner text target value → WellFormed text)
    (hinner : ∀ {target text value}, inner text target value →
      Rewritten (levels - 1) target text value)
    {target : Target} {value : target.Value} (h : textMeaning levels inner text target value) :
    Rewritten levels target text value := by
  have hrecord (shape : Shape) (hshape : shape.target ≠ .type) {value : shape.target.Value}
      (h : RecordText levels inner shape text value) :
      Rewritten levels shape.target text value := by
    rcases h with ⟨hlevels, form, htext, hrecord⟩
    obtain ⟨outer, rfl⟩ := Nat.exists_eq_add_one.2 hlevels
    exact .record ((recordForm_iff hshape).2 (hrecord.formOf htext hwell))
      (fun _ _ _ _ _ hfound => hinner hfound) hfunctional hrecord.known
  induction target with
  | text | kind => exact .of_scalar rfl
  | int64 | dir | unit | field => exact rewritten_of_treeText h
  | type => exact rewritten_of_treeText h.treeText
  | parameter => exact hrecord .parameter (by decide) h
  | method => exact hrecord .method (by decide) h
  | interface => exact hrecord .interface (by decide) h
  | package => exact hrecord .package (by decide) h
  | sequence target =>
      rcases h with ⟨hlevels, items, htext, hitems⟩
      obtain ⟨outer, rfl⟩ := Nat.exists_eq_add_one.2 hlevels
      have hform : FormOf (.items items) text := by
        refine ⟨htext, fun item hitem => ?_⟩
        obtain ⟨value, -, hvalue⟩ := exists_related_of_mem hitems hitem
        exact hwell hvalue
      exact .sequence hform hitems fun _ _ _ hvalue => hinner hvalue
  | optional target ih =>
      rcases h with ⟨-, rfl⟩ | ⟨-, present, rfl, hpresent⟩
      · exact .of_scalar rfl
      · exact .present (ih hpresent)

/-- What is read while a text goes by is written again with at most one level more. -/
theorem rewritten_of_textMeans {target : Target} {value : target.Value}
    (h : TextMeans levels text target value) : Rewritten levels target text value := by
  induction levels generalizing target text value with
  | zero =>
      exact rewritten_of_textMeaning (fun _ _ _ _ h => h.elim) (fun h => h.elim)
        (fun h => h.elim) h
  | succ levels ih =>
      exact rewritten_of_textMeaning (functional_textMeans levels) TextMeans.wellFormed ih h

end Texts

section Reports

variable {package : Package}

theorem decode_encode :
    decode (encode package) =
      match readPackage (utf8 package.toJson.compact ++ [10]) with
      | .ok package => .ok package
      | .error fault => .error (.fault fault) := by
  rw [← reportOf_toJson]
  exact decode_reportOf package.toJson

/-- What was decoded is encoded with at most 128 levels.  Its report is decoded to it again unless
it has all of them; then nothing but the depth is wrong with the report, and in the text that was
decoded a record at level 127 leaves out a field that the report has as an empty list. -/
theorem decode_encode_of_decode (stdout : Bytes) (package : Package)
    (h : decode stdout = .ok package) :
    package.toJson.depth ≤ 128 ∧
    (decode (encode package) = .ok package ↔ package.toJson.depth ≠ 128) ∧
    (package.toJson.depth = 128 →
      decode (encode package) = .error (.fault (.malformed .tooDeep)) ∧
      ∃ head payload text, SentinelHead head ∧ stdout = head ++ payload ∧ Padded text payload ∧
        OmitsList 127 .package text) ∧
    (DecodeError.fault (.malformed .tooDeep)).message = "recursion limit exceeded" := by
  obtain ⟨head, payload, hhead, hstdout, hread⟩ := decode_eq_ok_iff_readPackage.1 h
  obtain ⟨text, hpadded, hmeans⟩ := readPackage_eq_ok_iff.1 hread
  have hwritten : Rewritten 127 .package text package := rewritten_of_textMeans hmeans
  have hle : package.toJson.depth ≤ 128 := hwritten.depth_le
  have hreport (hdepth : package.toJson.depth = 128) :
      decode (encode package) = .error (.fault (.malformed .tooDeep)) := by
    rw [decode_encode, readPackage_of_deep (hdepth ▸ by decide)]
  refine ⟨hle, ?_, fun hdepth => ⟨hreport hdepth, head, payload, text, hhead, hstdout, hpadded,
    hwritten.omits (Nat.le_of_eq hdepth.symm)⟩, rfl⟩
  apply Iff.intro
  · intro hok hdepth
    rw [hreport hdepth] at hok
    cases hok
  · intro hdepth
    rw [decode_encode, readPackage_compact (Nat.le_of_lt_succ (Nat.lt_of_le_of_ne hle hdepth))]

/-- The way through the given number of pointers. -/
def pointerFrames (n : Nat) : List Frame :=
  List.replicate n (.entry [(kindKey, .string "pointer")] "elem" [])

theorem toJson_pointers (n : Nat) (type : GoType) :
    (GoType.pointer^[n] type).toJson = plug (pointerFrames n) type.toJson := by
  induction n with
  | zero => rfl
  | succ n ih =>
      rw [Function.iterate_succ_apply', pointerFrames, List.replicate_succ]
      exact congrArg (Frame.entry [(kindKey, .string "pointer")] "elem" []).around ih

/-- A struct literal at level 127 that leaves out its fields. -/
theorem decode_encode_of_struct_without_fields :
    ∃ package : Package,
      decode (reportOf (plug (takenFrames ++ pointerFrames 119)
        (.object [(kindKey, .string "struct")]))) = .ok package ∧
      package.toJson.depth = 128 ∧
      decode (encode package) = .error (.fault (.malformed .tooDeep)) := by
  have hplace : (packageTaking (GoType.pointer^[119] (.struct []))).toJson =
      plug (takenFrames ++ pointerFrames 119)
        (.object ([(kindKey, .string "struct")] ++ ("fields", .array []) :: [])) := by
    rw [toJson_packageTaking, toJson_pointers, plug, plug, ← List.foldr_append]
    rfl
  obtain ⟨package, hdecode, hform⟩ := exists_decode_of_removed hplace (by decide +kernel)
    (by decide +kernel)
  have hdepth : package.toJson.depth = 128 := by
    rw [hform]
    decide +kernel
  exact ⟨package, hdecode, hdepth, ((decode_encode_of_decode _ package hdecode).2.2.1 hdepth).1⟩

end Reports

end InterfaceProbe
