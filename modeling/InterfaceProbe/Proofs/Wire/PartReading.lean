/-
# Lists and records, part by part

A list is read from a tree when its items are, and a record when it is described by its
values, known or not.  The parts are read as the whole is, with a level less, just as
they are while a text goes by.

A type is read from a tree wherever it stands.  Outside of other types its kind has to
be named for that.
-/

import InterfaceProbe.Proofs.Wire.Rewriting

namespace InterfaceProbe

open Grammar Reader

section Trees

variable {levels : Nat} {target : Target} {text : Bytes} {value : target.Value}

theorem treeText_iff :
    TreeText levels text target value ↔ NestsWithin levels text ∧ Denoted text target value := by
  apply Iff.intro
  · rintro ⟨tree, htree, hdepth, hmeaning⟩
    refine ⟨fun other hother => ?_, tree, htree, hmeaning⟩
    rwa [ValueText.unique hother htree]
  · rintro ⟨hnests, tree, htree, hmeaning⟩
    exact ⟨tree, htree, hnests tree htree, hmeaning⟩

theorem functional_treeText (levels : Nat) : Functional (TreeText levels) :=
  fun _ _ _ _ h hother => functional_denoted (treeText_iff.1 h).2 (treeText_iff.1 hother).2

/-- What is read whole, and within the levels. -/
def FitsTree (levels : Nat) (text : Bytes) : Prop := DenotesTree text ∧ NestsWithin levels text

/-- A list is read from a tree when its items are, with a level less. -/
theorem treeText_sequence_iff {items : List Bytes} (hform : FormOf (.items items) text)
    {values : List target.Value} :
    TreeText levels text (.sequence target) values ↔ ∃ inner, levels = inner + 1 ∧
      List.Forall₂ (fun item value => TreeText inner item target value) items values := by
  rw [treeText_iff, hform.denoted_iff]
  apply Iff.intro
  · rintro ⟨hnests, htrees, _, heq, hitems⟩
    cases heq
    rw [List.forall₂_map_left_iff] at hitems
    obtain ⟨inner, rfl, hinner⟩ := hform.exists_levels htrees hnests
    refine ⟨inner, rfl, List.forall₂_iff_zip.2 ⟨hitems.length_eq, fun {item value} hmem => ?_⟩⟩
    exact treeText_iff.2 ⟨hinner item (List.of_mem_zip hmem).1, List.forall₂_zip hitems hmem⟩
  · rintro ⟨inner, rfl, hitems⟩
    have hfits : ∀ item ∈ items, FitsTree inner item := by
      intro item hitem
      obtain ⟨value, -, hvalue⟩ := exists_related_of_mem hitems hitem
      exact ⟨denotesTree_of_denoted (treeText_iff.1 hvalue).2, (treeText_iff.1 hvalue).1⟩
    refine ⟨fun tree htree => (hform.depth_le_succ_iff htree).2 fun item hitem =>
      (hfits item hitem).2, fun item hitem => (hfits item hitem).1, _, rfl, ?_⟩
    rw [List.forall₂_map_left_iff]
    exact hitems.imp fun item value hvalue => (treeText_iff.1 hvalue).2

section Records

variable {shape : Shape} {form : Form Bytes} {record : shape.target.Value}

theorem Form.Tagged.unique {X : Type} {form rest rest' : Form X} {tag tag' : X}
    (h : form.Tagged tag rest) (h' : form.Tagged tag' rest') : tag = tag' ∧ rest = rest' := by
  cases form with
  | items values =>
      rcases h with ⟨others, rfl, rfl⟩
      rcases h' with ⟨others', heq, rfl⟩
      obtain ⟨rfl, rfl⟩ := List.cons.inj heq
      exact ⟨rfl, rfl⟩
  | entries members =>
      rcases h with ⟨htag, rfl⟩
      rcases h' with ⟨htag', rfl⟩
      exact ⟨List.singleton_inj.1 (htag.symm.trans htag'), rfl⟩

/-- The values of a type are its kind and those of its record. -/
theorem Form.Tagged.forall_values_iff {X : Type} {form rest : Form X} {tag : X}
    (h : form.Tagged tag rest) (property : X → Prop) :
    (∀ x ∈ form.values, property x) ↔ property tag ∧ ∀ x ∈ rest.values, property x := by
  apply Iff.intro
  · exact fun hall => ⟨hall tag h.mem_values, fun x hx => hall x (h.values_subset hx)⟩
  · rintro ⟨htag, hrest⟩ x hx
    cases form with
    | items values =>
        rcases h with ⟨others, rfl, rfl⟩
        rcases List.mem_cons.1 hx with rfl | hx
        · exact htag
        · exact hrest x hx
    | entries members =>
        rcases h with ⟨hkind, rfl⟩
        obtain ⟨⟨name, x⟩, hmember, rfl⟩ := List.mem_map.1 hx
        by_cases hname : name = kindKey
        · have hmem : x ∈ [tag] := hkind ▸ mem_valuesAt_of_mem (hname ▸ hmember)
          rwa [List.mem_singleton.1 hmem]
        · exact hrest x (List.mem_map.2 ⟨_, List.mem_filter.2 ⟨hmember, by simpa using hname⟩, rfl⟩)

/-- A record that is read from a tree is described by what its values are read as. -/
theorem denoted_record_iff (hform : RecordForm shape text form) :
    Denoted text shape.target record ↔
      (∀ part ∈ form.values, DenotesTree part) ∧
        IsRecord shape (fun _ => True) Denoted form record := by
  by_cases hshape : shape.target = .type
  · cases shape with
    | variant kind =>
        rcases hform with ⟨whole, tag, hwhole, htagged, htag⟩
        rw [hwhole.denoted_iff, htagged.forall_values_iff DenotesTree]
        apply Iff.intro
        · rintro ⟨⟨-, htrees⟩, _, _, kind', htype, hkind, hrecord⟩
          obtain ⟨tag', rest, htagged', rfl, rfl⟩ :=
            (Form.tagged_map_iff Denoted whole _ _).1 htype
          obtain ⟨rfl, rfl⟩ := htagged.unique htagged'
          obtain rfl := functional_denoted htag hkind
          exact ⟨htrees, (isRecord_map_iff _ _ _ _).1 hrecord⟩
        · rintro ⟨htrees, hrecord⟩
          refine ⟨⟨denotesTree_of_denoted htag, htrees⟩, _, _, kind,
            (Form.tagged_map_iff Denoted whole _ _).2 ⟨tag, form, htagged, rfl, rfl⟩, htag, ?_⟩
          exact (isRecord_map_iff _ _ _ _).2 hrecord
    | _ => cases hshape
  · rw [((recordForm_iff hshape).1 hform).denoted_iff, formMeaning_record_iff hshape,
      isRecord_map_iff]

/-- A kind has no depth. -/
theorem nestsWithin_of_denoted_kind {kind : Kind} (h : Denoted text .kind kind) :
    NestsWithin levels text := by
  rcases h with ⟨tree, htree, hmeaning⟩
  intro other hother
  rw [ValueText.unique hother htree]
  cases tree with
  | array | object => exact hmeaning.elim
  | _ => exact Nat.zero_le levels

/-- A record nests a level deeper than its values. -/
theorem nestsWithin_record_iff (hform : RecordForm shape text form)
    (htrees : ∀ part ∈ form.values, DenotesTree part) :
    NestsWithin levels text ↔
      ∃ inner, levels = inner + 1 ∧ ∀ part ∈ form.values, NestsWithin inner part := by
  have hwhole : ∃ whole, FormOf whole text ∧ (∀ part ∈ whole.values, DenotesTree part) ∧
      ∀ inner, (∀ part ∈ whole.values, NestsWithin inner part) ↔
        ∀ part ∈ form.values, NestsWithin inner part := by
    by_cases hshape : shape.target = .type
    · cases shape with
      | variant kind =>
          rcases hform with ⟨whole, tag, hwhole, htagged, htag⟩
          refine ⟨whole, hwhole,
            (htagged.forall_values_iff DenotesTree).2 ⟨denotesTree_of_denoted htag, htrees⟩,
            fun inner => ?_⟩
          rw [htagged.forall_values_iff (NestsWithin inner)]
          exact and_iff_right (nestsWithin_of_denoted_kind htag)
      | _ => cases hshape
    · exact ⟨form, (recordForm_iff hshape).1 hform, htrees, fun _ => Iff.rfl⟩
  obtain ⟨whole, hwhole, hwholeTrees, hsame⟩ := hwhole
  apply Iff.intro
  · intro hnests
    obtain ⟨inner, rfl, hinner⟩ := hwhole.exists_levels hwholeTrees hnests
    exact ⟨inner, rfl, (hsame inner).1 hinner⟩
  · rintro ⟨inner, rfl, hinner⟩ tree htree
    exact (hwhole.depth_le_succ_iff htree).2 ((hsame inner).2 hinner)

/-- The values of a record that is read from a tree fit the levels, known or not. -/
theorem isRecord_fitsTree_iff :
    IsRecord shape (FitsTree levels) (TreeText levels) form record ↔
      (∀ part ∈ form.values, FitsTree levels part) ∧
        IsRecord shape (fun _ => True) Denoted form record := by
  apply Iff.intro
  · intro h
    refine ⟨fun part hpart => ?_, h.fits, fun _ _ _ => trivial, ?_⟩
    · obtain ⟨key, hmember⟩ := Form.exists_member_of_mem_values h.fits hpart
      by_cases hkey : key ∈ shape.keys
      · obtain ⟨slot, -, -, found, hfound⟩ :=
          exists_meaning_of_describes shape h.known hmember hkey
        obtain ⟨hnests, hdenoted⟩ := treeText_iff.1 hfound
        exact ⟨denotesTree_of_denoted hdenoted, hnests⟩
      · exact h.unknown _ hmember hkey
    · exact describes_mono (functional_treeText levels) functional_denoted shape
        (fun _ _ _ _ _ hfound => (treeText_iff.1 hfound).2) h.known
  · rintro ⟨hfits, h⟩
    refine ⟨h.fits, fun member hmember _ => hfits _ (Form.mem_values_of_mem_members hmember), ?_⟩
    refine describes_mono functional_denoted (functional_treeText levels) shape ?_ h.known
    intro slot _ part hpart found hfound
    have hin := Form.mem_values_of_mem_members (mem_of_mem_valuesAt hpart)
    exact treeText_iff.2 ⟨(hfits part hin).2, hfound⟩

/-- A record is read from a tree when its values are, with a level less. -/
theorem treeText_record_iff (hform : RecordForm shape text form) :
    TreeText levels text shape.target record ↔ ∃ inner, levels = inner + 1 ∧
      IsRecord shape (FitsTree inner) (TreeText inner) form record := by
  rw [treeText_iff, denoted_record_iff hform]
  apply Iff.intro
  · rintro ⟨hnests, htrees, hrecord⟩
    obtain ⟨inner, rfl, hinner⟩ := (nestsWithin_record_iff hform htrees).1 hnests
    refine ⟨inner, rfl, isRecord_fitsTree_iff.2 ⟨fun part hpart => ?_, hrecord⟩⟩
    exact ⟨htrees part hpart, hinner part hpart⟩
  · rintro ⟨inner, rfl, h⟩
    obtain ⟨hfits, hrecord⟩ := isRecord_fitsTree_iff.1 h
    have htrees : ∀ part ∈ form.values, DenotesTree part := fun part hpart => (hfits part hpart).1
    refine ⟨(nestsWithin_record_iff hform htrees).2 ⟨inner, rfl, fun part hpart => ?_⟩, htrees,
      hrecord⟩
    exact (hfits part hpart).2

end Records

end Trees

section Streams

variable {levels : Nat} {text tag : Bytes} {form rest : Form Bytes}

theorem Form.json_inj {trees other : Form Json} (h : trees.json = other.json) : trees = other := by
  cases trees <;> cases other <;> cases h <;> rfl

/-- A type is read while its text goes by when it is read from a tree and its kind is named. -/
theorem textMeans_type_iff (hform : FormOf form text) (htagged : form.Tagged tag rest)
    {type : GoType} :
    TextMeans levels text .type type ↔
      TreeText levels text .type type ∧ ∀ literal, ¬ NumberText tag literal := by
  rw [textMeans_type]
  apply Iff.intro
  · intro h
    refine ⟨h.treeText, ?_⟩
    rcases h with ⟨trees, htrees, -, _, _, kind, hkind, rfl, -⟩
    obtain ⟨treeOf, htreeOf, heq⟩ := hform.exists_eq_json htrees
    obtain rfl := Form.json_inj heq
    obtain ⟨tag', rest', htagged', hname, -⟩ := (Form.tagged_map_iff treeOf form _ _).1 hkind
    obtain ⟨rfl, -⟩ := htagged.unique htagged'
    have hvalue := htreeOf tag htagged.mem_values
    rw [← hname] at hvalue
    cases hvalue with
    | string hstring => exact not_numberText_of_stringText hstring
  · rintro ⟨h, hnumber⟩
    obtain ⟨hnests, hdenoted⟩ := treeText_iff.1 h
    refine typeText_of_denoted hnests (fun other hother => ?_) hdenoted
    rcases hother.type_cases hform with ⟨heq, -⟩ | ⟨-, _, htagged'⟩
    · cases heq
    · rw [← (htagged.unique htagged').1]
      exact hnumber

end Streams

end InterfaceProbe
