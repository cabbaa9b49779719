/-
# What texts are read as by way of their trees

`Denoted` is the meaning of a text that is read whole before anything is made of
it, with no bound on its depth.  It does not need the tree: an array or an object
whose values denote trees is read as whatever the meanings of these make up.

Records are compared slot by slot.  Where each value of a slot is read alike in
two ways, so is the record.
-/

import InterfaceProbe.Proofs.Wire.CompactForm

namespace InterfaceProbe

open Grammar Reader

section Forms

variable {X Y Z : Type} {form : Form X}

namespace Form

/-- The values of a record as it is written. -/
def values : Form X → List X
  | .items values => values
  | .entries members => members.map Prod.snd

theorem map_map (f : X → Y) (g : Y → Z) (form : Form X) :
    (form.map f).map g = form.map fun x => g (f x) := by
  cases form with
  | items values => simp [Form.map]
  | entries members => simp [Form.map]

theorem values_map (f : X → Y) (form : Form X) : (form.map f).values = form.values.map f := by
  cases form with
  | items values => rfl
  | entries members => simp [Form.map, values]

theorem map_congr {f g : X → Y} (h : ∀ x ∈ form.values, f x = g x) : form.map f = form.map g := by
  cases form with
  | items values => exact congrArg Form.items (List.map_congr_left h)
  | entries members =>
      refine congrArg Form.entries (List.map_congr_left fun member hmember => ?_)
      rw [h member.2 (List.mem_map_of_mem hmember)]

theorem exists_member_of_mem_values {keys : List String} (hfits : form.Fits keys) {x : X}
    (h : x ∈ form.values) : ∃ key, (key, x) ∈ form.members keys := by
  cases form with
  | items values =>
      have hlength : values.length ≤ keys.length := hfits
      obtain ⟨⟨key, _⟩, hmember, rfl⟩ :=
        List.mem_map.1 ((List.map_snd_zip hlength).symm ▸ h : x ∈ (keys.zip values).map Prod.snd)
      exact ⟨key, hmember⟩
  | entries members =>
      obtain ⟨⟨key, _⟩, hmember, rfl⟩ := List.mem_map.1 h
      exact ⟨key, hmember⟩

theorem mem_values_of_mem_members {keys : List String} {member : String × X}
    (h : member ∈ form.members keys) : member.2 ∈ form.values := by
  cases form with
  | items values => exact (List.of_mem_zip h).2
  | entries members => exact List.mem_map_of_mem h

end Form

end Forms

section Texts

variable {form other : Form Bytes} {text value : Bytes} {levels : Nat}

/-- The form of a text: its brackets, and the texts of its values. -/
structure FormOf (form : Form Bytes) (text : Bytes) : Prop where
  isText : FormText form text
  wellFormed : ∀ value ∈ form.values, WellFormed value

/-- A text has one form. -/
theorem FormOf.unique (h : FormOf form text) (hother : FormOf other text) : form = other := by
  obtain ⟨b, tail, rfl, hb⟩ := FormText.start h.isText
  obtain ⟨c, rest, heq, hc⟩ := FormText.start hother.isText
  cases heq
  rcases hb with ⟨rfl, values, rfl⟩ | ⟨rfl, members, rfl⟩
  · rcases hc with ⟨-, others, rfl⟩ | ⟨hb, -⟩
    · rw [ArrayText.unique h.isText hother.isText h.wellFormed hother.wellFormed]
    · exact absurd hb (by decide)
  · rcases hc with ⟨hb, -⟩ | ⟨-, others, rfl⟩
    · exact absurd hb (by decide)
    · rw [FormText.entries_unique h.isText hother.isText
        (fun member hmember => h.wellFormed _ (List.mem_map_of_mem hmember))
        fun member hmember => hother.wellFormed _ (List.mem_map_of_mem hmember)]

theorem FormOf.wellFormed_text (h : FormOf form text) : WellFormed text := by
  cases form with
  | items values => exact .array h.isText h.wellFormed
  | entries members =>
      exact FormText.wellFormed [] h.isText trivial fun member hmember =>
        h.wellFormed _ (List.mem_map_of_mem hmember)

theorem formOf_bracketed {items : List Bytes} (h : ∀ item ∈ items, WellFormed item) :
    FormOf (.items items) (bracketed items) :=
  ⟨arrayText_bracketed items, h⟩

theorem formOf_braced {members : List (String × Bytes)}
    (h : ∀ member ∈ members, WellFormed member.2) : FormOf (.entries members) (braced members) :=
  ⟨formText_braced members, List.forall_mem_map.2 h⟩

/-- A text denotes the tree that its values denote. -/
theorem valueText_json {treeOf : Bytes → Json} (htext : FormText form text)
    (htrees : ∀ value ∈ form.values, ValueText value (treeOf value)) :
    ValueText text (form.map treeOf).json := by
  cases form with
  | items values =>
      refine .of_forall₂_items htext ?_
      rw [List.forall₂_map_right_iff]
      exact List.forall₂_same.2 htrees
  | entries members =>
      rcases htext with ⟨texts, htexts, hsame⟩
      refine .of_forall₂_entries htexts ?_
      have hmembers : ∀ member ∈ members, ValueText member.2 (treeOf member.2) :=
        fun member hmember => htrees _ (List.mem_map_of_mem hmember)
      rw [List.forall₂_map_right_iff]
      refine (forall₂_and_right.2 ⟨hsame.flip, hmembers⟩).imp ?_
      rintro texts member ⟨⟨hkey, hvalue⟩, htree⟩
      exact ⟨hkey, hvalue ▸ htree⟩

/-- Texts that denote a tree. -/
def DenotesTree (text : Bytes) : Prop := ∃ tree, ValueText text tree

/-- The text of an array or an object has a form, and its values denote trees. -/
theorem exists_form_of_json {trees : Form Json} (h : ValueText text trees.json) :
    ∃ form, FormOf form text ∧ ∀ value ∈ form.values, DenotesTree value := by
  have hform : ∃ form, FormText form text ∧ ∀ value ∈ form.values, DenotesTree value := by
    cases trees with
    | items items =>
        obtain ⟨texts, htext, hitems⟩ := valueText_array_iff.1 h
        refine ⟨.items texts, htext, fun value hvalue => ?_⟩
        obtain ⟨tree, -, htree⟩ := exists_related_of_mem hitems hvalue
        exact ⟨tree, htree⟩
    | entries entries =>
        obtain ⟨members, htext, hshows⟩ := exists_shows h
        refine ⟨.entries members, htext, List.forall_mem_map.2 fun member hmember => ?_⟩
        obtain ⟨tree, -, htree⟩ := hshows.exists_entry hmember
        exact ⟨tree, htree⟩
  obtain ⟨form, htext, htrees⟩ := hform
  refine ⟨form, ⟨htext, fun value hvalue => ?_⟩, htrees⟩
  obtain ⟨tree, htree⟩ := htrees value hvalue
  exact htree.wellFormed

/-- Values that denote trees denote one each. -/
theorem exists_treeOf (h : ∀ value ∈ form.values, DenotesTree value) :
    ∃ treeOf : Bytes → Json, ∀ value ∈ form.values, ValueText value (treeOf value) := by
  have hchoice (value : Bytes) : ∃ tree, value ∈ form.values → ValueText value tree := by
    by_cases hvalue : value ∈ form.values
    · obtain ⟨tree, htree⟩ := h value hvalue
      exact ⟨tree, fun _ => htree⟩
    · exact ⟨.null, fun hcontra => absurd hcontra hvalue⟩
  choose treeOf htreeOf using hchoice
  exact ⟨treeOf, htreeOf⟩

/-- A text with a form denotes no scalar. -/
theorem FormOf.exists_json (h : FormOf form text) {tree : Json} (htree : ValueText text tree) :
    ∃ trees : Form Json, tree = trees.json := by
  have hstart : ∃ b tail, text = b :: tail ∧ (b = 91 ∨ b = 123) := by
    obtain ⟨b, tail, rfl, ⟨rfl, -⟩ | ⟨rfl, -⟩⟩ := FormText.start h.isText
    · exact ⟨91, tail, rfl, .inl rfl⟩
    · exact ⟨123, tail, rfl, .inr rfl⟩
  have hnumber {literal : NumberLiteral} : ¬ NumberText text literal := by
    intro hliteral
    obtain ⟨b, tail, rfl, hb⟩ := hstart
    obtain ⟨c, rest, heq, hc⟩ := exists_cons_of_numberText hliteral
    cases heq
    rcases hb with rfl | rfl <;> simp [isDigit] at hc
  obtain ⟨b, tail, rfl, hb⟩ := hstart
  cases htree with
  | array htext hlength hitems => exact ⟨.items _, rfl⟩
  | object htext hlength hkeys hvalues => exact ⟨.entries _, rfl⟩
  | integer hliteral _ => exact absurd hliteral hnumber
  | real hliteral _ => exact absurd hliteral hnumber
  | string hstring =>
      rcases hstring with ⟨inside, -, heq⟩
      cases heq
      simp at hb
  | null | true | false => simp at hb

theorem FormOf.denotesTree (h : FormOf form text)
    (htrees : ∀ value ∈ form.values, DenotesTree value) : DenotesTree text := by
  obtain ⟨treeOf, htreeOf⟩ := exists_treeOf htrees
  exact ⟨_, valueText_json h.isText htreeOf⟩

/-- The tree of an array or object is made up of the trees of its values. -/
theorem FormOf.exists_eq_json (h : FormOf form text) {tree : Json} (htree : ValueText text tree) :
    ∃ treeOf : Bytes → Json, (∀ value ∈ form.values, ValueText value (treeOf value)) ∧
      tree = (form.map treeOf).json := by
  obtain ⟨trees, rfl⟩ := h.exists_json htree
  obtain ⟨other, hother, htrees⟩ := exists_form_of_json htree
  obtain rfl := h.unique hother
  obtain ⟨treeOf, htreeOf⟩ := exists_treeOf htrees
  exact ⟨treeOf, htreeOf, ValueText.unique htree (valueText_json h.isText htreeOf)⟩

theorem FormOf.depth_pos (h : FormOf form text) {tree : Json} (htree : ValueText text tree) :
    0 < tree.depth := by
  obtain ⟨trees, rfl⟩ := h.exists_json htree
  cases trees <;> exact Nat.succ_pos _

theorem Form.depth_json_le_iff {trees : Form Json} :
    trees.json.depth ≤ levels + 1 ↔ ∀ part ∈ trees.values, part.depth ≤ levels := by
  cases trees with
  | items items =>
      rw [Form.json, Json.depth, Nat.add_le_add_iff_right, Json.itemsDepth_le_iff]
      exact Iff.rfl
  | entries entries =>
      rw [Form.json, Json.depth, Nat.add_le_add_iff_right, Json.entriesDepth_le_iff, Form.values,
        List.forall_mem_map]

/-- The tree of a text, if it denotes one, has at most the given depth. -/
def NestsWithin (levels : Nat) (text : Bytes) : Prop :=
  ∀ tree, ValueText text tree → tree.depth ≤ levels

/-- An array or object nests one level deeper than its values. -/
theorem FormOf.depth_le_succ_iff (h : FormOf form text) {tree : Json}
    (htree : ValueText text tree) :
    tree.depth ≤ levels + 1 ↔ ∀ value ∈ form.values, NestsWithin levels value := by
  obtain ⟨treeOf, htreeOf, rfl⟩ := h.exists_eq_json htree
  rw [Form.depth_json_le_iff, Form.values_map, List.forall_mem_map]
  apply Iff.intro
  · intro hdepth value hvalue part hpart
    rw [ValueText.unique hpart (htreeOf value hvalue)]
    exact hdepth value hvalue
  · exact fun hvalues value hvalue => hvalues value hvalue _ (htreeOf value hvalue)

/-- A value nests less deeply than the text it stands in. -/
theorem FormOf.depth_lt (h : FormOf form text) {tree part : Json} (htree : ValueText text tree)
    (hvalue : value ∈ form.values) (hpart : ValueText value part) : part.depth < tree.depth := by
  obtain ⟨levels, hlevels⟩ := Nat.exists_eq_succ_of_ne_zero (Nat.ne_of_gt (h.depth_pos htree))
  rw [hlevels, Nat.lt_succ_iff]
  exact (h.depth_le_succ_iff htree).1 (Nat.le_of_eq hlevels) value hvalue part hpart

end Texts

section Meanings

variable {form : Form Bytes} {text : Bytes} {tree : Json} {target : Target} {value : target.Value}

/-- What a text may be read as by way of its tree, however deep that is. -/
def Denoted (text : Bytes) : Meaning := fun target value =>
  ∃ tree, ValueText text tree ∧ tree.meaning target value

theorem denotesTree_of_denoted (h : Denoted text target value) : DenotesTree text := by
  rcases h with ⟨tree, htree, -⟩
  exact ⟨tree, htree⟩

theorem denoted_eq_meaning (h : ValueText text tree) : Denoted text = tree.meaning := by
  funext target value
  apply propext
  apply Iff.intro
  · intro hdenoted
    rcases hdenoted with ⟨other, hother, hmeaning⟩
    rwa [ValueText.unique h hother]
  · exact fun hmeaning => ⟨tree, h, hmeaning⟩

theorem functional_denoted : Functional Denoted := by
  rintro text target value other ⟨tree, htree, hvalue⟩ ⟨tree', htree', hother⟩
  obtain rfl := ValueText.unique htree htree'
  exact Json.functional_meaning hvalue hother

/-- An array or an object means what the meanings of its values make up. -/
theorem FormOf.denoted_eq (h : FormOf form text)
    (htrees : ∀ value ∈ form.values, DenotesTree value) :
    Denoted text = formMeaning (form.map Denoted) := by
  obtain ⟨treeOf, htreeOf⟩ := exists_treeOf htrees
  rw [denoted_eq_meaning (valueText_json h.isText htreeOf), meaning_json, Form.map_map]
  congr 1
  exact Form.map_congr fun value hvalue => (denoted_eq_meaning (htreeOf value hvalue)).symm

/-- What an array or object is read as is what the meanings of its values make up. -/
theorem FormOf.denoted_iff (h : FormOf form text) :
    Denoted text target value ↔
      (∀ value ∈ form.values, DenotesTree value) ∧
        formMeaning (form.map Denoted) target value := by
  apply Iff.intro
  · intro hdenoted
    rcases id hdenoted with ⟨tree, htree, -⟩
    obtain ⟨treeOf, htreeOf, -⟩ := h.exists_eq_json htree
    have htrees : ∀ value ∈ form.values, DenotesTree value :=
      fun value hvalue => ⟨_, htreeOf value hvalue⟩
    exact ⟨htrees, h.denoted_eq htrees ▸ hdenoted⟩
  · intro hmeaning
    rcases hmeaning with ⟨htrees, hmeaning⟩
    rwa [h.denoted_eq htrees]

/-- What no scalar is read as is read off an array or an object. -/
theorem exists_form_of_denoted (hscalar : ∀ scalar, ¬ scalarMeaning scalar target value)
    (h : Denoted text target value) :
    ∃ form, FormOf form text ∧ (∀ value ∈ form.values, DenotesTree value) ∧
      formMeaning (form.map Denoted) target value := by
  rcases id h with ⟨tree, htree, hmeaning⟩
  have hjson : ∃ trees : Form Json, tree = trees.json := by
    cases tree with
    | array items => exact ⟨.items items, rfl⟩
    | object entries => exact ⟨.entries entries, rfl⟩
    | _ => exact absurd hmeaning (hscalar _)
  obtain ⟨trees, rfl⟩ := hjson
  obtain ⟨form, hform, -⟩ := exists_form_of_json htree
  exact ⟨form, hform, hform.denoted_iff.1 h⟩

end Meanings

section Records

variable {X : Type} {means other : X → Meaning} {members : List (String × X)}

/-- Entries describe a record whenever they do so for another reading of their values that is no
more generous at the slots of the record. -/
theorem describes_mono (hmeans : Functional means) (hother : Functional other) (shape : Shape)
    {value : shape.target.Value}
    (hslots : ∀ slot ∈ shape.record.slots, ∀ x ∈ valuesAt members slot.label,
      ∀ found, means x slot.target found → other x slot.target found)
    (h : shape.Describes (meanings means members) value) :
    shape.Describes (meanings other members) value := by
  obtain ⟨draft, hread, -⟩ := exists_draft_of_readable (readable_of_describes shape h)
  refine (build_eq_ok_iff hother shape fun slot hslot => ?_).1
    ((build_eq_ok_iff hmeans shape hread).2 h)
  rcases hread slot hslot with hnil | ⟨hbefore, x, found, hx, hfound, hafter⟩
  · exact .inl hnil
  · refine .inr ⟨hbefore, x, found, hx, hslots slot hslot x ?_ found hfound, hafter⟩
    rw [hx]
    exact List.mem_singleton_self x

end Records

end InterfaceProbe
