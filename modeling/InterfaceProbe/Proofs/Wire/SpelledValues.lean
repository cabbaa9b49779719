/-
# What spellings are read as

Every spelling of a wire form is read as the value it is the wire form of.
The induction is on the levels that are left.  At a record, outside of types
the entries are read one by one and the unknown ones skipped; inside a type
all entries denote trees, which make up the tree that is read.
-/

import InterfaceProbe.Proofs.Wire.Spelling

namespace InterfaceProbe

open Grammar

section Trees

open Reader

variable {levels : Nat} {members : List (String × Bytes)}

/-- A text denotes at most one tree. -/
theorem ValueText.unique {text : Bytes} {tree other : Json} (h : ValueText text tree)
    (hother : ValueText text other) : tree = other :=
  (value_takes (max tree.depth other.depth)).functional ends_nil ⟨h, Nat.le_max_left _ _⟩
    ⟨hother, Nat.le_max_right _ _⟩

/-- The value of each entry denotes a tree within the levels. -/
def HaveTrees (levels : Nat) (members : List (String × Bytes)) : Prop :=
  ∀ member ∈ members, ∃ tree, ValueText member.2 tree ∧ tree.depth ≤ levels

/-- An object whose values denote trees denotes an object, and what its values are read as by way
of their trees is what the trees mean. -/
theorem exists_trees (h : HaveTrees levels members) {text : Bytes}
    (htext : FormText (.entries members) text) :
    ∃ treeOf : Bytes → Json,
      ValueText text (.object (members.map fun member => (member.1, treeOf member.2))) ∧
        (Json.object (members.map fun member => (member.1, treeOf member.2))).depth ≤ levels + 1 ∧
        ∀ member ∈ members, ValueText member.2 (treeOf member.2) ∧
          TreeText levels member.2 = (treeOf member.2).meaning := by
  have hchoice (value : Bytes) : ∃ tree, value ∈ members.map Prod.snd →
      ValueText value tree ∧ tree.depth ≤ levels := by
    by_cases hvalue : value ∈ members.map Prod.snd
    · obtain ⟨member, hmember, rfl⟩ := List.mem_map.1 hvalue
      obtain ⟨tree, htree⟩ := h member hmember
      exact ⟨tree, fun _ => htree⟩
    · exact ⟨.null, fun hcontra => absurd hcontra hvalue⟩
  choose treeOf htreeOf using hchoice
  have htrees : ∀ member ∈ members, ValueText member.2 (treeOf member.2) ∧
      (treeOf member.2).depth ≤ levels := fun member hmember =>
    htreeOf member.2 (List.mem_map_of_mem hmember)
  rcases htext with ⟨texts, htexts, hsame⟩
  have hentries : List.Forall₂ (EntryWithin levels) texts
      (members.map fun member => (member.1, treeOf member.2)) := by
    rw [List.forall₂_map_right_iff]
    refine (forall₂_and_right.2 ⟨hsame.flip, htrees⟩).imp ?_
    rintro texts member ⟨⟨hkey, hvalue⟩, htree⟩
    refine ⟨hkey, ?_⟩
    rw [hvalue]
    exact htree
  obtain ⟨hvalue, hdepth⟩ := valueWithin_object_iff.2 ⟨texts, htexts, hentries⟩
  refine ⟨treeOf, hvalue, hdepth, fun member hmember => ⟨(htrees member hmember).1, ?_⟩⟩
  funext target value
  apply propext
  apply Iff.intro
  · intro h
    rcases h with ⟨tree, htree, -, hmeaning⟩
    rwa [ValueText.unique (htrees member hmember).1 htree]
  · exact fun hmeaning => ⟨_, (htrees member hmember).1, (htrees member hmember).2, hmeaning⟩

theorem meaning_json (form : Form Json) :
    form.json.meaning = formMeaning (form.map Json.meaning) := by
  cases form with
  | items values => rw [Form.json, Json.meaning, itemMeanings_eq_map]; rfl
  | entries members => rw [Form.json, Json.meaning, entryMeanings_eq_map]; rfl

theorem meanings_trees {treeOf : Bytes → Json}
    (h : ∀ member ∈ members, ValueText member.2 (treeOf member.2) ∧
      TreeText levels member.2 = (treeOf member.2).meaning) :
    meanings Json.meaning (members.map fun member => (member.1, treeOf member.2)) =
      meanings (TreeText levels) members := by
  rw [meanings, List.map_map]
  apply List.map_congr_left
  intro member hmember
  show (member.1, (treeOf member.2).meaning) = (member.1, TreeText levels member.2)
  rw [(h member hmember).2]

/-- An object whose values are read by way of their trees is read as a record. -/
theorem treeText_of_describes {shape : Shape} {value : shape.target.Value} {text : Bytes}
    (hvariant : shape.target ≠ .type) (htext : FormText (.entries members) text)
    (htrees : HaveTrees levels members)
    (h : shape.Describes (meanings (TreeText levels) members) value) :
    TreeText (levels + 1) text shape.target value := by
  obtain ⟨treeOf, hvalue, hdepth, hmeanings⟩ := exists_trees htrees htext
  refine ⟨_, hvalue, hdepth, ?_⟩
  rw [← meanings_trees hmeanings] at h
  have hrecord : IsRecord shape (fun _ => True) Json.meaning
      (.entries (members.map fun member => (member.1, treeOf member.2))) value :=
    ⟨trivial, fun _ _ _ => trivial, h⟩
  rw [← isRecord_map_iff] at hrecord
  change (Form.json (.entries _)).meaning shape.target value
  rw [meaning_json]
  cases shape with
  | variant kind => exact absurd rfl hvariant
  | _ => exact hrecord

/-- An object whose values are read by way of their trees and that names its kind is read as a
type. -/
theorem typeText_of_describes {kind : Kind} {type : GoType} {text tag : Bytes}
    (htext : FormText (.entries members) text) (htrees : HaveTrees levels members)
    (htag : valuesAt members kindKey = [tag]) (hkind : StringText tag kind.name)
    (h : (Shape.variant kind).Describes (meanings (TreeText levels)
      (members.filter fun member => member.1 ≠ kindKey)) type) :
    TypeText (levels + 1) text type := by
  obtain ⟨treeOf, hvalue, hdepth, hmeanings⟩ := exists_trees htrees htext
  have hmem : (kindKey, tag) ∈ members := mem_of_valuesAt_eq htag
  have htree : treeOf tag = .string kind.name :=
    ValueText.unique (hmeanings _ hmem).1 (.string hkind)
  refine ⟨.entries (members.map fun (member : String × Bytes) => (member.1, treeOf member.2)),
    hvalue, hdepth, .string kind.name, _, kind, ⟨?_, rfl⟩, rfl,
    ⟨trivial, fun _ _ _ => trivial, ?_⟩⟩
  · have hvalues := valuesAt_map treeOf members kindKey
    rw [htag, List.map_singleton, htree] at hvalues
    exact hvalues
  · have hrest := meanings_trees fun member (hmember : member ∈ members.filter fun member =>
      member.1 ≠ kindKey) => hmeanings member (List.mem_of_mem_filter hmember)
    rw [← hrest] at h
    rw [List.filter_map]
    exact h

end Trees

section Places

open Reader

variable {levels : Nat} {inType : Bool} {text : Bytes}

/-- What a text is read as: inside a type by way of its tree, outside while it goes by. -/
def ReadsAs (inType : Bool) (levels : Nat) (text : Bytes) : Meaning :=
  if inType then TreeText levels text else TextMeans levels text

theorem readsAs_null (target : Target) :
    ReadsAs inType levels nullText (.optional target) none := by
  cases inType with
  | true => exact ⟨.null, .null, Nat.zero_le _, rfl⟩
  | false => cases levels <;> exact .inl ⟨rfl, rfl⟩

theorem meaning_optional {tree : Json} {target : Target} {value : target.Value}
    (hnull : tree ≠ .null) (h : tree.meaning target value) :
    tree.meaning (.optional target) (some value) := by
  cases tree with
  | null => exact absurd rfl hnull
  | _ => exact ⟨value, rfl, h⟩

theorem ReadsAs.optional {target : Target} {value : target.Value}
    (h : ReadsAs inType levels text target value) (hnull : text ≠ nullText) :
    ReadsAs inType levels text (.optional target) (some value) := by
  cases inType with
  | true =>
      rcases h with ⟨tree, htree, hdepth, hmeaning⟩
      refine ⟨tree, htree, hdepth, meaning_optional ?_ hmeaning⟩
      rintro rfl
      cases htree
      exact hnull rfl
  | false => cases levels <;> exact .inr ⟨hnull, value, rfl, h⟩

theorem readsAs_text {value : String} (h : StringText text value) :
    ReadsAs inType levels text .text value := by
  cases inType with
  | true => exact ⟨.string value, .string h, Nat.zero_le _, rfl⟩
  | false => cases levels <;> exact h

theorem readsAs_kind {kind : Kind} (h : StringText text kind.name) :
    ReadsAs inType levels text .kind kind := by
  cases inType with
  | true => exact ⟨.string kind.name, .string h, Nat.zero_le _, .inl rfl⟩
  | false => cases levels <;> exact h

theorem readsAs_dir {dir : ChanDir} (h : StringText text dir.name) :
    ReadsAs inType levels text .dir dir := by
  have htree : TreeText levels text .dir dir :=
    ⟨.string dir.name, .string h, Nat.zero_le _, rfl⟩
  cases inType with
  | true => exact htree
  | false => cases levels <;> exact htree

theorem readsAs_int64 {n : Int64} (h : ValueText text (.int n.toInt)) :
    ReadsAs inType levels text .int64 n := by
  have htree : TreeText levels text .int64 n := ⟨.int n.toInt, h, Nat.zero_le _, rfl⟩
  cases inType with
  | true => exact htree
  | false => cases levels <;> exact htree

/-- A list is read as the list of what its items are read as. -/
theorem readsAs_sequence {texts : List Bytes} {target : Target} {values : List target.Value}
    (htext : ArrayText texts text)
    (h : List.Forall₂ (fun text value => ReadsAs inType levels text target value) texts values) :
    ReadsAs inType (levels + 1) text (.sequence target) values := by
  cases inType with
  | false => exact ⟨Nat.succ_pos levels, texts, htext, h⟩
  | true =>
      have htrees : ∃ trees, List.Forall₂ (ValueWithin levels) texts trees ∧
          List.Forall₂ (fun tree value => Json.meaning tree target value) trees values := by
        clear htext
        induction h with
        | nil => exact ⟨[], .nil, .nil⟩
        | cons hfirst _ ih =>
            rcases hfirst with ⟨tree, htree, hdepth, hmeaning⟩
            rcases ih with ⟨trees, htrees, hmeanings⟩
            exact ⟨tree :: trees, .cons ⟨htree, hdepth⟩ htrees, .cons hmeaning hmeanings⟩
      rcases htrees with ⟨trees, htrees, hmeanings⟩
      obtain ⟨hvalue, hdepth⟩ := valueWithin_array_iff.2 ⟨texts, htext, htrees⟩
      refine ⟨.array trees, hvalue, hdepth, itemMeanings trees, rfl, ?_⟩
      rw [itemMeanings_eq_map, List.forall₂_map_left_iff]
      exact hmeanings

/-- A kind that is named is a kind of the tree. -/
theorem TypeText.treeText {type : GoType} (h : TypeText levels text type) :
    TreeText levels text .type type := by
  rcases h with ⟨form, hvalue, hdepth, tag, rest, kind, htagged, rfl, hrecord⟩
  refine ⟨form.json, hvalue, hdepth, ?_⟩
  rw [meaning_json]
  refine ⟨_, _, kind, (Form.tagged_map_iff Json.meaning form _ _).2 ⟨_, rest, htagged, rfl, rfl⟩,
    .inl rfl, (isRecord_map_iff (.variant kind) Json.meaning rest type).2 hrecord⟩

theorem readsAs_type {type : GoType} (h : TypeText levels text type) :
    ReadsAs inType levels text .type type := by
  cases inType with
  | true => exact h.treeText
  | false => cases levels <;> exact h

end Places

section Spelled

open Reader

variable {extra : Bool → Nat → Bytes → Prop} {levels : Nat} {inType : Bool} {target : Target}
  {text : Bytes}

theorem spells_string_iff {value : String} :
    Spells extra levels inType target (.string value) text ↔ StringText text value := by
  cases levels <;> exact Iff.rfl

theorem spells_number_iff {number : JsonNumber} :
    Spells extra levels inType target (.number number) text ↔ ValueText text (.number number) := by
  cases levels <;> exact Iff.rfl

/-- A spelling is not the word for an absent value. -/
theorem Spells.ne_null {tree : Json} (h : Spells extra levels inType target tree text) :
    text ≠ nullText := by
  rintro rfl
  cases tree with
  | null => cases levels <;> exact h
  | bool value => cases levels <;> exact h
  | string value => cases ValueText.unique .null (.string (spells_string_iff.1 h))
  | number number => cases ValueText.unique .null (spells_number_iff.1 h)
  | array items =>
      cases levels with
      | zero => exact h
      | succ levels =>
          cases target with
          | sequence target =>
              rcases h with ⟨texts, ⟨inside, -, htext⟩, -⟩
              cases htext
          | _ => exact h
  | object entries =>
      cases levels with
      | zero => exact h
      | succ levels =>
          rcases h with ⟨shape, members, -, -, ⟨texts, ⟨_, inside, -, -, htext⟩, -⟩, -⟩
          cases htext

end Spelled

section Records

open Reader

variable {levels : Nat} {shape : Shape} {entries : List (String × Json)}
  {members : List (String × Bytes)}

theorem mem_known_iff {key : String} :
    key ∈ shape.known ↔ key ∈ shape.keys ∨ shape.target = .type ∧ key = kindKey := by
  cases shape with
  | variant kind => simp [Shape.known, or_comm]
  | _ => simp [Shape.known]

theorem kindKey_not_mem_keys (shape : Shape) : kindKey ∉ shape.keys := by
  cases shape with
  | variant kind => cases kind <;> decide
  | _ => decide

theorem kindKey_not_mem_defaults {tree : Json} : (kindKey, tree) ∉ shape.defaults := by
  cases shape with
  | variant kind => cases kind <;> simp [Shape.defaults, kindKey]
  | _ => simp [Shape.defaults, kindKey]

/-- A variant is given the name of its kind. -/
theorem exists_tag_of_supplied {spells : Target → Json → Bytes → Prop} {kind : Kind}
    {texts : List Bytes} (hkind : (kindKey, .string kind.name) ∈ entries)
    (honce : ∀ tree, (kindKey, tree) ∈ entries → tree = .string kind.name)
    (hsupplied : Supplied spells shape.defaults entries kindKey texts) :
    ∃ tag, texts = [tag] ∧ spells .kind (.string kind.name) tag := by
  cases hsupplied with
  | @written tree tag hwritten hspells =>
      rw [honce tree hwritten] at hspells
      exact ⟨tag, rfl, hspells⟩
  | omitted _ homitted => exact absurd homitted kindKey_not_mem_defaults
  | absent habsent => exact absurd (List.mem_map_of_mem hkind) habsent
  | null habsent => exact absurd (List.mem_map_of_mem hkind) habsent

theorem valuesAt_filter_of_ne {X : Type} {members : List (String × X)} {key : String}
    (hkey : key ≠ kindKey) :
    valuesAt (members.filter fun member => member.1 ≠ kindKey) key = valuesAt members key := by
  unfold valuesAt
  rw [List.filter_filter]
  congr 1
  apply List.filter_congr
  intro member _
  by_cases h : member.1 = key
  · simp [h, hkey]
  · simp [h]

/-- The values of a record that is read by way of trees denote trees. -/
theorem haveTrees_of_describes {value : shape.target.Value}
    (hdescribes : shape.Describes (meanings (TreeText levels) members) value)
    (hunknown : ∀ member ∈ members, member.1 ∉ shape.keys →
      ∃ tree, ValueText member.2 tree ∧ tree.depth ≤ levels) : HaveTrees levels members := by
  intro member hmember
  by_cases hkey : member.1 ∈ shape.keys
  · obtain ⟨slot, -, -, found, tree, htree, hdepth, -⟩ :=
      exists_meaning_of_describes shape hdescribes hmember hkey
    exact ⟨tree, htree, hdepth⟩
  · exact hunknown member hmember hkey

theorem optionalEntry_keys_sublist (key : String) (value : Option Json) :
    ((optionalEntry key value).map Prod.fst).Sublist [key] := by
  cases value with
  | none => exact List.nil_sublist _
  | some value => exact List.Sublist.refl _

theorem signatureEntries_keys_sublist (params results : List Json) (variadic : Option Json) :
    ((signatureEntries params results variadic).map Prod.fst).Sublist
      ["params", "results", "variadic"] := by
  rw [signatureEntries, List.map_append]
  exact (List.Sublist.refl ["params", "results"]).append (optionalEntry_keys_sublist _ _)

/-- The wire form of a type says its kind first and then has keys of that variant, in declaration
order. -/
theorem exists_kind_of_type {type : GoType} (h : type.toJson = .object entries) :
    ∃ (kind : Kind) (rest : List (String × Json)),
      entries = (kindKey, .string kind.name) :: rest ∧
        (rest.map Prod.fst).Sublist (Shape.variant kind).keys := by
  have behind (key name : String) (value : Option Json) (tree : Json) :
      ((optionalEntry key value ++ [(name, tree)]).map Prod.fst).Sublist [key, name] := by
    rw [List.map_append]
    exact (optionalEntry_keys_sublist key value).append (List.Sublist.refl [name])
  cases type with
  | named path name =>
      cases h
      exact ⟨.named, _, rfl, behind _ _ _ _⟩
  | pointer elem =>
      cases h
      exact ⟨.pointer, _, rfl, List.Sublist.refl _⟩
  | array len elem =>
      cases h
      exact ⟨.array, _, rfl, behind _ _ _ _⟩
  | map key value =>
      cases h
      exact ⟨.map, _, rfl, List.Sublist.refl _⟩
  | chan dir elem =>
      cases h
      exact ⟨.chan, _, rfl, List.Sublist.refl _⟩
  | func params results variadic =>
      cases h
      exact ⟨.func, _, rfl, signatureEntries_keys_sublist _ _ _⟩
  | struct fields =>
      cases h
      exact ⟨.struct, _, rfl, List.Sublist.refl _⟩
  | interface methods =>
      cases h
      exact ⟨.interface, _, rfl, List.Sublist.refl _⟩
  | predeclared name =>
      cases h
      exact ⟨.predeclared, _, rfl, List.Sublist.refl _⟩

theorem kindKey_not_mem_of_sublist {rest : List (String × Json)}
    (h : (rest.map Prod.fst).Sublist shape.keys) (tree : Json) : (kindKey, tree) ∉ rest :=
  fun hmem => kindKey_not_mem_keys shape (h.subset (List.mem_map_of_mem hmem))

section Inside

variable {inner : Bool} (hinside : ∀ target value text,
  Spells Ignorable levels inner target (wireForm target value) text →
    ReadsAs inner levels text target value)

include hinside

theorem describes_of_spelled {value : shape.target.Value}
    (hentries : wireForm shape.target value = .object entries) (hkind : shape.HasKind entries)
    {kept : List (String × Bytes)}
    (hsupplied : ∀ key ∈ shape.keys,
      Supplied (Spells Ignorable levels inner) shape.defaults entries key (valuesAt kept key)) :
    shape.Describes (meanings (ReadsAs inner levels) kept) value := by
  apply describes_of_supplied (fun target value text h => ?_) hentries hkind hsupplied
  · exact fun _ => readsAs_null _
  · exact ⟨hinside target value text h, (hinside target value text h).optional h.ne_null⟩

/-- The spelling of a record outside of types is read as the record. -/
theorem recordText_of_spelled {value : shape.target.Value} {text : Bytes} (hinner : inner = false)
    (hshape : shape.target ≠ .type)
    (hentries : wireForm shape.target value = .object entries) (hkind : shape.HasKind entries)
    (htext : FormText (.entries members) text)
    (hsupplied : ∀ key ∈ shape.known,
      Supplied (Spells Ignorable levels inner) shape.defaults entries key (valuesAt members key))
    (hextra : ∀ member ∈ members, member.1 ∉ shape.known → Ignorable inner levels member.2) :
    RecordText (levels + 1) (TextMeans levels) shape text value := by
  have hknown (key : String) : key ∈ shape.known ↔ key ∈ shape.keys := by
    rw [mem_known_iff]
    simp [hshape]
  have hdescribes := describes_of_spelled hinside hentries hkind fun key hkey =>
    hsupplied key ((hknown key).2 hkey)
  subst hinner
  refine ⟨Nat.succ_pos levels, .entries members, htext, trivial, fun member hmember hkey => ?_,
    hdescribes⟩
  exact hextra member hmember fun h => hkey ((hknown _).1 h)

/-- The spelling of a record inside a type is read as the record. -/
theorem treeText_of_spelled {value : shape.target.Value} {text : Bytes} (hinner : inner = true)
    (hshape : shape.target ≠ .type)
    (hentries : wireForm shape.target value = .object entries) (hkind : shape.HasKind entries)
    (htext : FormText (.entries members) text)
    (hsupplied : ∀ key ∈ shape.known,
      Supplied (Spells Ignorable levels inner) shape.defaults entries key (valuesAt members key))
    (hextra : ∀ member ∈ members, member.1 ∉ shape.known → Ignorable inner levels member.2) :
    TreeText (levels + 1) text shape.target value := by
  have hknown (key : String) : key ∈ shape.known ↔ key ∈ shape.keys := by
    rw [mem_known_iff]
    simp [hshape]
  have hdescribes := describes_of_spelled hinside hentries hkind fun key hkey =>
    hsupplied key ((hknown key).2 hkey)
  subst hinner
  refine treeText_of_describes hshape htext ?_ hdescribes
  refine haveTrees_of_describes hdescribes fun member hmember hkey => ?_
  exact hextra member hmember fun h => hkey ((hknown _).1 h)

/-- The spelling of a type is read as the type. -/
theorem typeText_of_spelled {kind : Kind} {type : GoType} {text : Bytes} (hinner : inner = true)
    (hentries : type.toJson = .object entries) (hkind : (Shape.variant kind).HasKind entries)
    (htext : FormText (.entries members) text)
    (hsupplied : ∀ key ∈ (Shape.variant kind).known,
      Supplied (Spells Ignorable levels inner) (Shape.variant kind).defaults entries key
        (valuesAt members key))
    (hextra : ∀ member ∈ members, member.1 ∉ (Shape.variant kind).known →
      Ignorable inner levels member.2) :
    TypeText (levels + 1) text type := by
  obtain ⟨other, rest, rfl, hkeys⟩ := exists_kind_of_type hentries
  have hrest := kindKey_not_mem_of_sublist hkeys
  obtain rfl := eq_of_hasKind hkind hrest
  have honce (tree : Json) (htree : (kindKey, tree) ∈ (kindKey, .string kind.name) :: rest) :
      tree = .string kind.name := by
    rcases List.mem_cons.1 htree with hfirst | hmem
    · exact (Prod.mk.inj hfirst).2
    · exact absurd hmem (hrest tree)
  obtain ⟨tag, htag, hspells⟩ :=
    exists_tag_of_supplied List.mem_cons_self honce (hsupplied kindKey List.mem_cons_self)
  have hdescribes : (Shape.variant kind).Describes (meanings (ReadsAs inner levels)
      (members.filter fun member => member.1 ≠ kindKey)) type := by
    have hform : wireForm (Shape.variant kind).target type = .object _ := hentries
    refine describes_of_spelled hinside hform hkind fun key hkey => ?_
    have hne : key ≠ kindKey := by
      rintro rfl
      exact kindKey_not_mem_keys _ hkey
    rw [valuesAt_filter_of_ne hne]
    exact hsupplied key (List.mem_cons_of_mem _ hkey)
  subst hinner
  have htrees := haveTrees_of_describes hdescribes fun member hmember hkey => by
    obtain ⟨hmember, hne⟩ := List.mem_filter.1 hmember
    refine hextra member hmember fun hknown => ?_
    rcases List.mem_cons.1 hknown with h | h
    · simp [h] at hne
    · exact hkey h
  refine typeText_of_describes htext (fun member hmember => ?_) htag
    (spells_string_iff.1 hspells) hdescribes
  by_cases hkey : member.1 = kindKey
  · have hvalue : member.2 ∈ valuesAt members kindKey :=
      List.mem_map.2 ⟨member, List.mem_filter.2 ⟨hmember, by simp [hkey]⟩, rfl⟩
    rw [htag, List.mem_singleton] at hvalue
    rw [hvalue]
    exact ⟨.string kind.name, .string (spells_string_iff.1 hspells), Nat.zero_le _⟩
  · exact htrees member (List.mem_filter.2 ⟨hmember, by simp [hkey]⟩)

end Inside

/-- A record is read by what its shape says, with the values inside read as `inner` says. -/
theorem readsAs_of_record {inType : Bool} {text : Bytes} {value : shape.target.Value}
    (hrecord : (inType || shape.isBuffered) = false →
      RecordText (levels + 1) (TextMeans levels) shape text value)
    (htree : (inType || shape.isBuffered) = true →
      TreeText (levels + 1) text shape.target value)
    (hshape : shape.target ≠ .type) : ReadsAs inType (levels + 1) text shape.target value := by
  cases inType with
  | true => exact htree rfl
  | false =>
      cases shape with
      | field => exact htree rfl
      | variant kind => exact absurd rfl hshape
      | _ => exact hrecord rfl

end Records

section Main

open Reader

theorem exists_entries_of_target {target : Target} {value : target.Value} (shape : Shape)
    (h : shape.target = target) : ∃ entries, wireForm target value = .object entries := by
  subst h
  cases shape with
  | variant kind => cases value <;> exact ⟨_, rfl⟩
  | _ => exact ⟨_, rfl⟩

/-- No wire form is spelled as an optional value of its own. -/
theorem spells_of_optional {extra : Bool → Nat → Bytes → Prop} {levels : Nat} {inType : Bool}
    {target : Target} {tree : Json} {text : Bytes}
    (h : Spells extra levels inType (.optional target) tree text) :
    Spells extra levels inType target tree text := by
  cases tree with
  | null => cases levels <;> exact h
  | bool value => cases levels <;> exact h
  | string value => exact spells_string_iff.2 (spells_string_iff.1 h)
  | number number => exact spells_number_iff.2 (spells_number_iff.1 h)
  | array items => cases levels <;> exact h.elim
  | object entries =>
      cases levels with
      | zero => exact h.elim
      | succ levels =>
          rcases h with ⟨shape, _, hshape, -⟩
          cases shape <;> cases hshape

/-- Spellings are read as the value when those of records and lists are. -/
theorem readsAs_of_containers {levels : Nat} {inType : Bool}
    (hobject : ∀ {target value text entries}, wireForm target value = .object entries →
      Spells Ignorable levels inType target (wireForm target value) text →
      ReadsAs inType levels text target value)
    (harray : ∀ {target : Target} {values : List target.Value} {text : Bytes},
      Spells Ignorable levels inType (.sequence target) (wireForm (.sequence target) values) text →
      ReadsAs inType levels text (.sequence target) values)
    {target : Target} {value : target.Value} {text : Bytes}
    (h : Spells Ignorable levels inType target (wireForm target value) text) :
    ReadsAs inType levels text target value := by
  induction target with
  | text => exact readsAs_text (spells_string_iff.1 h)
  | int64 => exact readsAs_int64 (spells_number_iff.1 h)
  | dir => exact readsAs_dir (spells_string_iff.1 h)
  | kind => exact readsAs_kind (spells_string_iff.1 h)
  | unit => cases levels <;> exact h.elim
  | type =>
      obtain ⟨entries, hentries⟩ : ∃ entries, wireForm .type value = .object entries :=
        exists_entries_of_target (.variant .named) rfl
      exact hobject hentries h
  | parameter => exact hobject rfl h
  | field => exact hobject rfl h
  | method => exact hobject rfl h
  | interface => exact hobject rfl h
  | package => exact hobject rfl h
  | optional target ih =>
      cases value with
      | none => cases levels <;> exact h.elim
      | some present =>
          have hpresent : Spells Ignorable levels inType target (wireForm target present) text :=
            spells_of_optional h
          exact (ih hpresent).optional hpresent.ne_null
  | sequence target _ => exact harray h

/-- Every spelling of a wire form is read as the value. -/
theorem readsAs_of_spells {levels : Nat} {inType : Bool} {target : Target} {value : target.Value}
    {text : Bytes} (h : Spells Ignorable levels inType target (wireForm target value) text) :
    ReadsAs inType levels text target value := by
  induction levels generalizing inType target value text with
  | zero =>
      refine readsAs_of_containers (fun hentries h => ?_) (fun h => ?_) h
      · rw [hentries] at h
        exact h.elim
      · exact h.elim
  | succ levels ih =>
      refine readsAs_of_containers (fun {target value text entries} hentries h => ?_)
        (fun {target values text} h => ?_) h
      · rw [hentries] at h
        rcases h with ⟨shape, members, rfl, hkind, htext, hsupplied, hextra⟩
        have hinside (target : Target) (value : target.Value) (text : Bytes)
            (h : Spells Ignorable levels (inType || shape.isBuffered) target
              (wireForm target value) text) := ih h
        by_cases hshape : shape.target = .type
        · cases shape with
          | variant kind =>
              exact readsAs_type (typeText_of_spelled hinside (Bool.or_true _) hentries hkind htext
                hsupplied hextra)
          | _ => cases hshape
        · refine readsAs_of_record (fun hinner => ?_) (fun hinner => ?_) hshape
          · exact recordText_of_spelled hinside hinner hshape hentries hkind htext hsupplied hextra
          · exact treeText_of_spelled hinside hinner hshape hentries hkind htext hsupplied hextra
      · rcases h with ⟨texts, htext, hitems⟩
        apply readsAs_sequence htext
        rw [List.forall₂_map_left_iff] at hitems
        exact hitems.flip.imp fun _ _ h => ih h

end Main

end InterfaceProbe
