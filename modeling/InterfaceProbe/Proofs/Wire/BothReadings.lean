/-
# Reading at once and reading from a tree

Records are read while their text goes by, but inside a type they are read from
a tree.  The two ways differ in what they ask of a text.  A value under an unknown
key is skipped by its grammar in the one and has to denote a tree in the other.
The kind of a type has to be named in the one and may be given by its index in
the other.

Where neither matters and the levels suffice, the two ways agree, target by
target: on arrays and objects, on repeated and missing keys, on null and on
malformed parts.

The last section says how lists and records are read part by part while a text goes by.
-/

import InterfaceProbe.Proofs.Wire.Denoted

namespace InterfaceProbe

open Grammar Reader

section Places

variable {target other inner : Target} {text value part : Bytes}

/-- The places in a text that is offered for a target, with what each is offered for: the text
itself, the items of a list, the values of a record's slots and the kind of a type. -/
inductive Reaches : Target → Bytes → Target → Bytes → Prop
  | here {target : Target} {text : Bytes} : Reaches target text target text
  | present {target inner : Target} {text part : Bytes} :
      Reaches target text inner part → Reaches (.optional target) text inner part
  | item {target inner : Target} {items : List Bytes} {text item part : Bytes} :
      FormOf (.items items) text → item ∈ items → Reaches target item inner part →
      Reaches (.sequence target) text inner part
  | slot {shape : Shape} {form : Form Bytes} {slot : Slot} {target inner : Target}
      {text value part : Bytes} :
      shape.target = target → shape.isBuffered = false → FormOf form text →
      slot ∈ shape.record.slots → (slot.label, value) ∈ form.members shape.keys →
      Reaches slot.target value inner part → Reaches target text inner part
  | tag {form rest : Form Bytes} {text tag : Bytes} :
      FormOf form text → form.Tagged tag rest → Reaches .type text .kind tag

/-- Values under unknown keys denote trees, wherever a record is read while it goes by. -/
def IgnoresTrees (target : Target) (text : Bytes) : Prop :=
  ∀ (shape : Shape) (part : Bytes) (form : Form Bytes), shape.isBuffered = false →
    Reaches target text shape.target part → FormOf form part →
    ∀ member ∈ form.members shape.keys, member.1 ∉ shape.keys → DenotesTree member.2

/-- No kind is written as a number, wherever a type stands in what is read while it goes by. -/
def NamesKinds (target : Target) (text : Bytes) : Prop :=
  ∀ tag, Reaches target text .kind tag → ∀ literal, ¬ NumberText tag literal

theorem IgnoresTrees.of_reaches (h : IgnoresTrees target text)
    (hreaches : ∀ {inner part}, Reaches other value inner part → Reaches target text inner part) :
    IgnoresTrees other value :=
  fun shape part form hshape hpart => h shape part form hshape (hreaches hpart)

theorem NamesKinds.of_reaches (h : NamesKinds target text)
    (hreaches : ∀ {inner part}, Reaches other value inner part → Reaches target text inner part) :
    NamesKinds other value :=
  fun tag htag => h tag (hreaches htag)

theorem Shape.eq_of_target (shape : Shape) {other : Shape} (hshape : shape.isBuffered = false)
    (hother : other.isBuffered = false) (h : other.target = shape.target) : other = shape := by
  cases shape <;> cases other <;> simp_all [Shape.target, Shape.isBuffered]

theorem Shape.target_ne_type {shape : Shape} (hshape : shape.isBuffered = false) :
    shape.target ≠ .type := by
  cases shape <;> simp_all [Shape.target, Shape.isBuffered]

/-- What is reached in a record: the record, or what is reached from its slots. -/
theorem Reaches.record_cases (shape : Shape) (htarget : shape.target = target)
    (hshape : shape.isBuffered = false) {form : Form Bytes} (hform : FormOf form text)
    (h : Reaches target text inner part) :
    inner = target ∧ part = text ∨ ∃ slot ∈ shape.record.slots, ∃ value,
      (slot.label, value) ∈ form.members shape.keys ∧ Reaches slot.target value inner part := by
  cases h with
  | here => exact .inl ⟨rfl, rfl⟩
  | present _ => cases shape <;> cases htarget
  | item _ _ _ => cases shape <;> cases htarget
  | @slot other _ slot _ _ _ value _ hother hbuffered hform' hslot hvalue hpart =>
      obtain rfl := Shape.eq_of_target shape hshape hbuffered (hother.trans htarget.symm)
      obtain rfl := hform.unique hform'
      exact .inr ⟨slot, hslot, value, hvalue, hpart⟩
  | tag _ _ => exact absurd htarget (Shape.target_ne_type hshape)

/-- What is reached in a type: the type, or its kind. -/
theorem Reaches.type_cases {form : Form Bytes} (hform : FormOf form text)
    (h : Reaches .type text inner part) :
    inner = .type ∧ part = text ∨ inner = .kind ∧ ∃ rest, form.Tagged part rest := by
  cases h with
  | here => exact .inl ⟨rfl, rfl⟩
  | slot htarget hshape => exact absurd htarget (Shape.target_ne_type hshape)
  | tag hform' htagged =>
      obtain rfl := hform.unique hform'
      exact .inr ⟨rfl, _, htagged⟩

end Places

section Forms

/-- The form that a record is read off is the form of its text. -/
theorem IsRecord.formOf {shape : Shape} {means : Bytes → Meaning} {form : Form Bytes}
    {text : Bytes} {value : shape.target.Value} (htext : FormText form text)
    (h : IsRecord shape WellFormed means form value)
    (hmeans : ∀ {text target value}, means text target value → WellFormed text) :
    FormOf form text := by
  refine ⟨htext, fun value hvalue => ?_⟩
  obtain ⟨key, hmember⟩ := Form.exists_member_of_mem_values h.fits hvalue
  exact IsRecord.wellFormed h hmeans _ hmember

theorem formMeaning_record_iff {shape : Shape} (hshape : shape.target ≠ .type)
    {form : Form Meaning} {value : shape.target.Value} :
    formMeaning form shape.target value ↔ IsRecord shape (fun _ => True) id form value := by
  cases shape with
  | variant kind => exact absurd rfl hshape
  | _ => exact Iff.rfl

theorem scalarMeaning_record {shape : Shape} (hshape : shape.target ≠ .type) (scalar : Json)
    (value : shape.target.Value) : ¬ scalarMeaning scalar shape.target value := by
  cases shape with
  | variant kind => exact absurd rfl hshape
  | _ => exact id

end Forms

section Buffering

variable {levels : Nat} {inner : Bytes → Meaning} (hfunctional : Functional inner)
  (hwell : ∀ {text target value}, inner text target value → WellFormed text)
  (hinner : ∀ {target text value}, IgnoresTrees target text → inner text target value →
    Denoted text target value)

include hfunctional hwell hinner

/-- A record that is read while it goes by is the same from its tree. -/
theorem denoted_of_recordText {shape : Shape} (hshape : shape.isBuffered = false) {text : Bytes}
    {value : shape.target.Value} (hignores : IgnoresTrees shape.target text)
    (h : RecordText levels inner shape text value) : Denoted text shape.target value := by
  rcases h with ⟨-, form, htext, hrecord⟩
  have hform := hrecord.formOf htext hwell
  have hslot {slot : Slot} (hslot : slot ∈ shape.record.slots) {value : Bytes}
      (hvalue : (slot.label, value) ∈ form.members shape.keys) {found : slot.Value}
      (hfound : inner value slot.target found) : Denoted value slot.target found :=
    hinner (hignores.of_reaches fun hpart => .slot rfl hshape hform hslot hvalue hpart) hfound
  have htrees : ∀ value ∈ form.values, DenotesTree value := by
    intro value hvalue
    obtain ⟨key, hmember⟩ := Form.exists_member_of_mem_values hrecord.fits hvalue
    by_cases hkey : key ∈ shape.keys
    · obtain ⟨slot, hin, rfl, found, hfound⟩ :=
        exists_meaning_of_describes shape hrecord.known hmember hkey
      exact denotesTree_of_denoted (hslot hin hmember hfound)
    · exact hignores shape text form hshape .here hform _ hmember hkey
  rw [hform.denoted_eq htrees, formMeaning_record_iff (Shape.target_ne_type hshape),
    isRecord_map_iff]
  refine ⟨hrecord.fits, fun _ _ _ => trivial, ?_⟩
  refine describes_mono hfunctional functional_denoted shape ?_ hrecord.known
  exact fun slot hin value hvalue found hfound => hslot hin (mem_of_mem_valuesAt hvalue) hfound

/-- What is read while a text goes by is read from its tree, one level in. -/
theorem denoted_of_textMeaning {target : Target} {text : Bytes} {value : target.Value}
    (hignores : IgnoresTrees target text) (h : textMeaning levels inner text target value) :
    Denoted text target value := by
  have hrecord (shape : Shape) (hshape : shape.isBuffered = false) {value : shape.target.Value}
      (hignores : IgnoresTrees shape.target text)
      (h : RecordText levels inner shape text value) : Denoted text shape.target value :=
    denoted_of_recordText hfunctional hwell hinner hshape hignores h
  have htree {target : Target} {value : target.Value} (h : TreeText levels text target value) :
      Denoted text target value := by
    rcases h with ⟨tree, htext, -, hmeaning⟩
    exact ⟨tree, htext, hmeaning⟩
  induction target with
  | text => exact ⟨.string value, .string h, rfl⟩
  | kind => exact ⟨.string value.name, .string h, .inl rfl⟩
  | type => exact htree h.treeText
  | parameter => exact hrecord .parameter rfl hignores h
  | method => exact hrecord .method rfl hignores h
  | interface => exact hrecord .interface rfl hignores h
  | package => exact hrecord .package rfl hignores h
  | int64 | dir | unit | field => exact htree h
  | sequence target =>
      rcases h with ⟨-, items, htext, hitems⟩
      have hform : FormOf (.items items) text := by
        refine ⟨htext, fun item hitem => ?_⟩
        obtain ⟨value, -, hvalue⟩ := exists_related_of_mem hitems hitem
        exact hwell hvalue
      have hdenoted : List.Forall₂ (fun item value => Denoted item target value) items value := by
        refine List.forall₂_iff_zip.2 ⟨hitems.length_eq, fun {item value} hmem => ?_⟩
        refine hinner (hignores.of_reaches fun hpart => ?_) (List.forall₂_zip hitems hmem)
        exact .item hform (List.of_mem_zip hmem).1 hpart
      have htrees : ∀ item ∈ items, DenotesTree item := by
        intro item hitem
        obtain ⟨value, -, hvalue⟩ := exists_related_of_mem hdenoted hitem
        exact denotesTree_of_denoted hvalue
      rw [hform.denoted_eq htrees]
      refine ⟨_, rfl, ?_⟩
      rw [List.forall₂_map_left_iff]
      exact hdenoted
  | optional target ih =>
      rcases h with ⟨rfl, rfl⟩ | ⟨hnull, present, rfl, hpresent⟩
      · exact ⟨.null, .null, rfl⟩
      · obtain ⟨tree, htree, hmeaning⟩ :=
          ih (hignores.of_reaches fun hpart => .present hpart) hpresent
        refine ⟨tree, htree, meaning_optional ?_ hmeaning⟩
        rintro rfl
        cases htree
        exact hnull rfl

end Buffering

section Trees

variable {form : Form Bytes} {text : Bytes}

theorem Form.Tagged.mem_values {X : Type} {form rest : Form X} {tag : X}
    (h : form.Tagged tag rest) : tag ∈ form.values := by
  cases form with
  | items values =>
      rcases h with ⟨others, rfl, rfl⟩
      exact List.mem_cons_self
  | entries members =>
      rcases h with ⟨htag, -⟩
      exact List.mem_map_of_mem (mem_of_valuesAt_eq htag)

theorem Form.Tagged.values_subset {X : Type} {form rest : Form X} {tag : X}
    (h : form.Tagged tag rest) : rest.values ⊆ form.values := by
  cases form with
  | items values =>
      rcases h with ⟨others, rfl, rfl⟩
      exact List.subset_cons_self tag others
  | entries members =>
      rcases h with ⟨-, rfl⟩
      exact List.map_subset _ (List.filter_subset_self members)

theorem not_numberText_of_stringText {value : String} (h : StringText text value)
    (literal : NumberLiteral) : ¬ NumberText text literal := by
  intro hnumber
  obtain ⟨b, tail, rfl, hb⟩ := exists_cons_of_numberText hnumber
  rcases h with ⟨inside, -, heq⟩
  cases heq
  simp [isDigit] at hb

/-- A kind whose text is no number is named. -/
theorem stringText_of_denoted_kind {kind : Kind} (hnumber : ∀ literal, ¬ NumberText text literal)
    (h : Denoted text .kind kind) : StringText text kind.name := by
  rcases h with ⟨tree, htree, hmeaning⟩
  cases htree with
  | string hstring =>
      rcases hmeaning with heq | ⟨index, heq, -⟩ <;> cases heq
      exact hstring
  | integer hliteral _ => exact absurd hliteral (hnumber _)
  | real hliteral _ => exact absurd hliteral (hnumber _)
  | array | object => exact hmeaning.elim
  | null | true | false => rcases hmeaning with heq | ⟨index, heq, -⟩ <;> cases heq

end Trees

section Streaming

variable {levels : Nat} {inner : Bytes → Meaning} {text : Bytes}
  (hdepth : NestsWithin levels text)

include hdepth

/-- A type whose kind is no number is read from its text as it is from its tree. -/
theorem typeText_of_denoted {type : GoType} (hkinds : NamesKinds .type text)
    (h : Denoted text .type type) : TypeText levels text type := by
  obtain ⟨form, hform, htrees, tag, rest, kind, htagged, hkind, hrecord⟩ :=
    exists_form_of_denoted (fun _ => id) h
  obtain ⟨treeOf, htreeOf⟩ := exists_treeOf htrees
  obtain ⟨tag, rest, hplace, rfl, rfl⟩ := (Form.tagged_map_iff Denoted form _ _).1 htagged
  have hname : treeOf tag = .string kind.name :=
    ValueText.unique (htreeOf tag hplace.mem_values)
      (.string (stringText_of_denoted_kind (hkinds tag (.tag hform hplace)) hkind))
  have hrest : rest.map Denoted = (rest.map treeOf).map Json.meaning := by
    rw [Form.map_map]
    exact Form.map_congr fun value hvalue =>
      denoted_eq_meaning (htreeOf value (hplace.values_subset hvalue))
  have htree := valueText_json hform.isText htreeOf
  refine ⟨form.map treeOf, htree, hdepth _ htree, _, _, kind,
    (Form.tagged_map_iff treeOf form _ _).2 ⟨tag, rest, hplace, rfl, rfl⟩, hname, ?_⟩
  rw [← isRecord_map_iff, ← hrest]
  exact hrecord

variable (hfunctional : Functional inner)
  (hinner : ∀ {target text value}, NamesKinds target text →
    (∀ tree, ValueText text tree → tree.depth < levels) →
    Denoted text target value → inner text target value)

include hfunctional hinner

/-- A record that is read from its tree is the same while its text goes by. -/
theorem recordText_of_denoted {shape : Shape} (hshape : shape.isBuffered = false)
    {value : shape.target.Value} (hkinds : NamesKinds shape.target text)
    (h : Denoted text shape.target value) : RecordText levels inner shape text value := by
  have htarget := Shape.target_ne_type hshape
  obtain ⟨form, hform, htrees, hmeaning⟩ :=
    exists_form_of_denoted (fun scalar => scalarMeaning_record htarget scalar value) h
  rw [formMeaning_record_iff htarget, isRecord_map_iff] at hmeaning
  rcases hmeaning with ⟨hfits, -, hknown⟩
  rcases h with ⟨tree, htree, -⟩
  refine ⟨Nat.lt_of_lt_of_le (hform.depth_pos htree) (hdepth tree htree), form, hform.isText, hfits,
    fun member hmember _ => hform.wellFormed _ (Form.mem_values_of_mem_members hmember), ?_⟩
  refine describes_mono functional_denoted hfunctional shape ?_ hknown
  intro slot hin value hvalue found hfound
  have hmember := mem_of_mem_valuesAt hvalue
  refine hinner (hkinds.of_reaches fun hpart => .slot rfl hshape hform hin hmember hpart) ?_ hfound
  intro part hpart
  have hlt := hform.depth_lt htree (Form.mem_values_of_mem_members hmember) hpart
  exact Nat.lt_of_lt_of_le hlt (hdepth tree htree)

/-- What is read from a tree is read while its text goes by, if what is one level in is. -/
theorem textMeaning_of_denoted {target : Target} {value : target.Value}
    (hkinds : NamesKinds target text) (h : Denoted text target value) :
    textMeaning levels inner text target value := by
  have hrecord (shape : Shape) (hshape : shape.isBuffered = false) {value : shape.target.Value}
      (hkinds : NamesKinds shape.target text) (h : Denoted text shape.target value) :
      RecordText levels inner shape text value :=
    recordText_of_denoted hdepth hfunctional hinner hshape hkinds h
  have htree {target : Target} {value : target.Value} (h : Denoted text target value) :
      TreeText levels text target value := by
    rcases h with ⟨tree, htree, hmeaning⟩
    exact ⟨tree, htree, hdepth tree htree, hmeaning⟩
  induction target with
  | text =>
      rcases h with ⟨tree, htree, hmeaning⟩
      cases htree with
      | string hstring =>
          cases hmeaning
          exact hstring
      | array | object => exact hmeaning.elim
      | _ => cases hmeaning
  | kind => exact stringText_of_denoted_kind (hkinds text .here) h
  | type => exact typeText_of_denoted hdepth hkinds h
  | parameter => exact hrecord .parameter rfl hkinds h
  | method => exact hrecord .method rfl hkinds h
  | interface => exact hrecord .interface rfl hkinds h
  | package => exact hrecord .package rfl hkinds h
  | int64 | dir | unit | field => exact htree h
  | sequence target =>
      obtain ⟨form, hform, -, _, heq, hitems⟩ := exists_form_of_denoted (fun _ => id) h
      cases form with
      | entries members => cases heq
      | items items =>
          cases heq
          rcases h with ⟨tree, htext, -⟩
          rw [List.forall₂_map_left_iff] at hitems
          refine ⟨Nat.lt_of_lt_of_le (hform.depth_pos htext) (hdepth tree htext), items,
            hform.isText, List.forall₂_iff_zip.2 ⟨hitems.length_eq, fun {item value} hmem => ?_⟩⟩
          have hitem : item ∈ items := (List.of_mem_zip hmem).1
          refine hinner (hkinds.of_reaches fun hpart => .item hform hitem hpart)
            (fun part hpart => ?_) (List.forall₂_zip hitems hmem)
          exact Nat.lt_of_lt_of_le (hform.depth_lt htext hitem hpart) (hdepth tree htext)
  | optional target ih =>
      rcases h with ⟨tree, htext, hmeaning⟩
      by_cases hnull : text = nullText
      · subst hnull
        obtain rfl := ValueText.unique htext .null
        exact .inl ⟨rfl, hmeaning⟩
      · obtain ⟨present, rfl, hpresent⟩ : ∃ present, value = some present ∧
            tree.meaning target present := by
          cases tree with
          | null =>
              cases htext
              exact absurd rfl hnull
          | _ => exact hmeaning
        refine .inr ⟨hnull, present, rfl, ?_⟩
        exact ih (hkinds.of_reaches fun hpart => .present hpart) ⟨tree, htext, hpresent⟩

end Streaming

section Agreement

variable {levels : Nat} {target : Target} {text : Bytes} {value : target.Value}

/-- What is read while a text goes by is read from its tree. -/
theorem denoted_of_textMeans (hignores : IgnoresTrees target text)
    (h : TextMeans levels text target value) : Denoted text target value := by
  induction levels generalizing target text value with
  | zero =>
      exact denoted_of_textMeaning (fun _ _ _ _ h => h.elim) (fun h => h.elim)
        (fun _ h => h.elim) hignores h
  | succ levels ih =>
      exact denoted_of_textMeaning (functional_textMeans levels) TextMeans.wellFormed ih hignores h

/-- What is read from a tree is read while its text goes by, if the levels suffice. -/
theorem textMeans_of_denoted (hkinds : NamesKinds target text)
    (hdepth : NestsWithin levels text) (h : Denoted text target value) :
    TextMeans levels text target value := by
  induction levels generalizing target text value with
  | zero =>
      refine textMeaning_of_denoted hdepth (fun _ _ _ _ h => h.elim) ?_ hkinds h
      intro target text value _ hdepth hdenoted
      rcases hdenoted with ⟨tree, htree, -⟩
      exact absurd (hdepth tree htree) (Nat.not_lt_zero _)
  | succ levels ih =>
      refine textMeaning_of_denoted hdepth (functional_textMeans levels) ?_ hkinds h
      exact fun hkinds hdepth => ih hkinds fun tree htree => Nat.le_of_lt_succ (hdepth tree htree)

end Agreement

section Parts

variable {levels : Nat} {text : Bytes}

theorem textMeans_type {type : GoType} :
    TextMeans levels text .type type ↔ TypeText levels text type := by
  cases levels <;> exact Iff.rfl

/-- A record is described by what the values of its form are read as. -/
theorem FormOf.recordText_iff {form : Form Bytes} (hform : FormOf form text) {shape : Shape}
    {record : shape.target.Value} :
    RecordText (levels + 1) (TextMeans levels) shape text record ↔
      IsRecord shape WellFormed (TextMeans levels) form record := by
  apply Iff.intro
  · rintro ⟨-, other, htext, hrecord⟩
    obtain rfl := hform.unique (hrecord.formOf htext TextMeans.wellFormed)
    exact hrecord
  · exact fun hrecord => ⟨Nat.succ_pos levels, form, hform.isText, hrecord⟩

/-- A list is read while its text goes by when its items are, with a level less. -/
theorem textMeans_sequence_iff {target : Target} {items : List Bytes}
    (hform : FormOf (.items items) text) {values : List target.Value} :
    TextMeans levels text (.sequence target) values ↔ ∃ inner, levels = inner + 1 ∧
      List.Forall₂ (fun item value => TextMeans inner item target value) items values := by
  cases levels with
  | zero =>
      apply Iff.intro
      · rintro ⟨hlevels, -⟩
        cases hlevels
      · rintro ⟨inner, heq, -⟩
        cases heq
  | succ levels =>
      apply Iff.intro
      · rintro ⟨-, others, htext, hothers⟩
        refine ⟨levels, rfl, ?_⟩
        have hwell : ∀ other ∈ others, WellFormed other := by
          intro other hother
          obtain ⟨value, -, hvalue⟩ := exists_related_of_mem hothers hother
          exact TextMeans.wellFormed hvalue
        have hsame : FormOf (.items others) text := ⟨htext, hwell⟩
        cases hform.unique hsame
        exact hothers
      · rintro ⟨inner, heq, hitems⟩
        cases heq
        exact ⟨Nat.succ_pos levels, items, hform.isText, hitems⟩

/-- A record is read while its text goes by when its values are, with a level less. -/
theorem textMeans_record_iff {shape : Shape} (hshape : shape.isBuffered = false)
    {form : Form Bytes} (hform : FormOf form text) {record : shape.target.Value} :
    TextMeans levels text shape.target record ↔ ∃ inner, levels = inner + 1 ∧
      IsRecord shape WellFormed (TextMeans inner) form record := by
  have hmeans : TextMeans levels text shape.target record ↔ ∃ inner, levels = inner + 1 ∧
      RecordText (inner + 1) (TextMeans inner) shape text record := by
    cases levels with
    | zero =>
        have hnone : ¬ TextMeans 0 text shape.target record := by
          cases shape with
          | field | variant _ => cases hshape
          | _ => exact fun h => absurd h.1 (Nat.lt_irrefl 0)
        refine ⟨fun h => absurd h hnone, ?_⟩
        rintro ⟨inner, heq, -⟩
        cases heq
    | succ levels =>
        have hsame : TextMeans (levels + 1) text shape.target record ↔
            RecordText (levels + 1) (TextMeans levels) shape text record := by
          cases shape with
          | field | variant _ => cases hshape
          | _ => exact Iff.rfl
        rw [hsame]
        simp
  rw [hmeans]
  exact exists_congr fun inner => and_congr_right fun _ => hform.recordText_iff

end Parts

end InterfaceProbe
