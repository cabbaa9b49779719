/-
# A method in an interface and in a literal

The texts around a method: the package and the interface that hold it, or an
interface literal with it.  The literal is a type, so it is made the parameter of
another method, and stands five levels deeper.

An equivalence for each layer takes it off, once for how deep the whole text nests
and once for what it is read as.
-/

import InterfaceProbe.Proofs.Wire.BothReadings

namespace InterfaceProbe

open Grammar Reader

section Layers

variable {levels : Nat} {label name key : String} {item : Bytes}

/-- An object of a labelled text and a list of one item. -/
def labelledList (label text key : String) (item : Bytes) : Bytes :=
  braced [(label, utf8 (quoted text)), (key, bracketed [item])]

/-- A package with one interface that has the one method. -/
def packageText (method : Bytes) : Bytes :=
  labelledList "name" "p" "interfaces" (labelledList "name" "I" "methods" method)

/-- The type of an interface literal with the one method. -/
def literalText (method : Bytes) : Bytes := labelledList kindKey "interface" "methods" method

/-- A method whose only parameter is of the type. -/
def takingText (type : Bytes) : Bytes :=
  labelledList "name" "W" "params" (braced [("type", type)])

example : packageText (takingText (literalText (utf8 "m"))) = utf8
    ("\x7b\"name\":\"p\",\"interfaces\":[\x7b\"name\":\"I\",\"methods\":[" ++
      "\x7b\"name\":\"W\",\"params\":[\x7b\"type\":" ++
        "\x7b\"kind\":\"interface\",\"methods\":[m]\x7d\x7d]\x7d]\x7d]\x7d") := by decide

theorem wellFormed_quoted (text : String) : WellFormed (utf8 (quoted text)) :=
  .string (stringText_quoted text).loose

theorem formOf_bracketed_singleton (hitem : WellFormed item) :
    FormOf (.items [item]) (bracketed [item]) :=
  formOf_bracketed (List.forall_mem_singleton.2 hitem)

theorem formOf_labelledList (hitem : WellFormed item) :
    FormOf (.entries [(label, utf8 (quoted name)), (key, bracketed [item])])
      (labelledList label name key item) :=
  formOf_braced (List.forall_mem_cons.2 ⟨wellFormed_quoted name,
    List.forall_mem_singleton.2 (formOf_bracketed_singleton hitem).wellFormed_text⟩)

theorem wellFormed_labelledList (hitem : WellFormed item) :
    WellFormed (labelledList label name key item) :=
  (formOf_labelledList hitem).wellFormed_text

theorem wellFormed_packageText {method : Bytes} (h : WellFormed method) :
    WellFormed (packageText method) :=
  wellFormed_labelledList (wellFormed_labelledList h)

theorem wellFormed_literalText {method : Bytes} (h : WellFormed method) :
    WellFormed (literalText method) :=
  wellFormed_labelledList h

theorem formOf_braced_type {type : Bytes} (htype : WellFormed type) :
    FormOf (.entries [("type", type)]) (braced [("type", type)]) :=
  formOf_braced (List.forall_mem_singleton.2 htype)

theorem wellFormed_takingText {type : Bytes} (h : WellFormed type) :
    WellFormed (takingText type) :=
  wellFormed_labelledList (formOf_braced_type h).wellFormed_text

end Layers

section Nesting

variable {levels : Nat} {form : Form Bytes} {text value : Bytes}

theorem nestsWithin_quoted (levels : Nat) (text : String) :
    NestsWithin levels (utf8 (quoted text)) := by
  intro tree htree
  rw [ValueText.unique htree (.string (stringText_quoted text))]
  exact Nat.zero_le levels

/-- Where the other values are strings, one value decides how deep a text nests. -/
theorem FormOf.nestsWithin_succ_iff (h : FormOf form text) (hvalue : value ∈ form.values)
    (hothers : ∀ other ∈ form.values, other = value ∨ ∃ text, other = utf8 (quoted text)) :
    NestsWithin (levels + 1) text ↔ NestsWithin levels value := by
  apply Iff.intro
  · intro htext part hpart
    have htrees : ∀ other ∈ form.values, DenotesTree other := by
      intro other hother
      rcases hothers other hother with rfl | ⟨text, rfl⟩
      · exact ⟨part, hpart⟩
      · exact ⟨_, .string (stringText_quoted text)⟩
    obtain ⟨tree, htree⟩ := h.denotesTree htrees
    exact (h.depth_le_succ_iff htree).1 (htext tree htree) value hvalue part hpart
  · intro hnests tree htree
    refine (h.depth_le_succ_iff htree).2 fun other hother => ?_
    rcases hothers other hother with rfl | ⟨text, rfl⟩
    · exact hnests
    · exact nestsWithin_quoted levels text

variable {label name key : String} {item type : Bytes}

theorem nestsWithin_bracketed_iff (hitem : WellFormed item) :
    NestsWithin (levels + 1) (bracketed [item]) ↔ NestsWithin levels item :=
  (formOf_bracketed_singleton hitem).nestsWithin_succ_iff List.mem_cons_self
    fun _ hother => .inl (List.mem_singleton.1 hother)

theorem nestsWithin_labelledList_iff (hitem : WellFormed item) :
    NestsWithin (levels + 2) (labelledList label name key item) ↔ NestsWithin levels item := by
  rw [← nestsWithin_bracketed_iff hitem]
  refine (formOf_labelledList hitem).nestsWithin_succ_iff
    (List.mem_cons_of_mem _ List.mem_cons_self) fun other hother => ?_
  rcases List.mem_pair.1 hother with rfl | rfl
  · exact .inr ⟨name, rfl⟩
  · exact .inl rfl

theorem nestsWithin_packageText_iff (hitem : WellFormed item) :
    NestsWithin (levels + 4) (packageText item) ↔ NestsWithin levels item := by
  rw [packageText, nestsWithin_labelledList_iff (wellFormed_labelledList hitem)]
  exact nestsWithin_labelledList_iff hitem

theorem nestsWithin_literalText_iff (hitem : WellFormed item) :
    NestsWithin (levels + 2) (literalText item) ↔ NestsWithin levels item :=
  nestsWithin_labelledList_iff hitem

theorem nestsWithin_takingText_iff (htype : WellFormed type) :
    NestsWithin (levels + 3) (takingText type) ↔ NestsWithin levels type := by
  have hform := formOf_braced_type htype
  rw [takingText, nestsWithin_labelledList_iff hform.wellFormed_text]
  exact hform.nestsWithin_succ_iff List.mem_cons_self
    fun _ hother => .inl (List.mem_singleton.1 hother)

/-- A type nests seven levels deeper as the only type of a package. -/
theorem nestsWithin_onlyType_iff (htype : WellFormed type) :
    NestsWithin (levels + 7) (packageText (takingText type)) ↔ NestsWithin levels type := by
  rw [← nestsWithin_takingText_iff htype]
  exact nestsWithin_packageText_iff (wellFormed_takingText htype)

end Nesting

section Entries

variable {X : Type} {means : X → Meaning} {members : List (String × X)} {key : String} {x : X}
  {target : Target} {default value : target.Value}

theorem required_iff_of_valuesAt (h : valuesAt members key = [x]) :
    Required (meanings means members) key target value ↔ means x target value := by
  rw [required_meanings_iff, h]
  simp

theorem defaulted_iff_of_valuesAt (h : valuesAt members key = [x]) :
    Defaulted (meanings means members) key target default value ↔ means x target value := by
  rw [defaulted_meanings_iff, h]
  simp

theorem defaulted_iff_of_absent (h : valuesAt members key = []) :
    Defaulted (meanings means members) key target default value ↔ value = default := by
  rw [defaulted_meanings_iff, h]
  simp

theorem valuesAt_pair {first second : String} (h : first ≠ second) (x y : X) :
    valuesAt [(first, x), (second, y)] first = [x] ∧
      valuesAt [(first, x), (second, y)] second = [y] := by
  simp [valuesAt, h, h.symm]

theorem valuesAt_pair_of_ne {first second : String} (hfirst : first ≠ key) (hsecond : second ≠ key)
    (x y : X) : valuesAt [(first, x), (second, y)] key = [] := by
  simp [valuesAt, hfirst, hsecond]

end Entries

section Streamed

variable {levels : Nat} {name : String} {text item : Bytes} (hitem : WellFormed item)

theorem stringText_quoted_iff {value : String} :
    StringText (utf8 (quoted name)) value ↔ value = name := by
  apply Iff.intro
  · intro h
    cases ValueText.unique (.string h) (.string (stringText_quoted name))
    rfl
  · rintro rfl
    exact stringText_quoted value

theorem textMeans_quoted_iff {value : String} :
    TextMeans levels (utf8 (quoted name)) .text value ↔ value = name := by
  cases levels <;> exact stringText_quoted_iff

/-- A record that is an object with known entries is described by them. -/
theorem FormOf.describes_iff {members : List (String × Bytes)}
    (h : FormOf (.entries members) text) (shape : Shape) {value : shape.target.Value} :
    RecordText (levels + 1) (TextMeans levels) shape text value ↔
      shape.Describes (meanings (TextMeans levels) members) value := by
  rw [h.recordText_iff]
  exact ⟨fun hrecord => hrecord.known, fun hdescribes => ⟨trivial,
    fun member hmember _ => h.wellFormed _ (List.mem_map_of_mem hmember), hdescribes⟩⟩

/-- What the first entry of a labelled list gives to a record. -/
theorem labelled_iff {key : String} (hkey : "name" ≠ key) {x : Bytes} {found : String} :
    Required (meanings (TextMeans levels) [("name", utf8 (quoted name)), (key, x)])
      "name" .text found ↔ found = name := by
  rw [required_iff_of_valuesAt (valuesAt_pair hkey _ _).1, textMeans_quoted_iff]

include hitem

theorem textMeans_bracketed_iff {target : Target} {values : List target.Value} :
    TextMeans (levels + 1) (bracketed [item]) (.sequence target) values ↔
      ∃ value, values = [value] ∧ TextMeans levels item target value := by
  rw [textMeans_sequence_iff (formOf_bracketed_singleton hitem)]
  simp [List.forall₂_cons_left_iff, and_comm]

/-- What the second entry of a labelled list gives to a record. -/
theorem listed_iff {key : String} (hkey : "name" ≠ key) {target : Target}
    {default values : List target.Value} :
    Defaulted (meanings (TextMeans (levels + 1))
      [("name", utf8 (quoted name)), (key, bracketed [item])]) key (.sequence target) default
        values ↔ ∃ value, values = [value] ∧ TextMeans levels item target value := by
  rw [defaulted_iff_of_valuesAt (valuesAt_pair hkey _ _).2, textMeans_bracketed_iff hitem]

theorem textMeans_package_iff {package : Package} :
    TextMeans (levels + 2) (labelledList "name" name "interfaces" item) .package package ↔
      ∃ interface, package = ⟨name, [interface]⟩ ∧ TextMeans levels item .interface interface := by
  apply ((formOf_labelledList hitem).describes_iff .package).trans
  rcases package with ⟨found, interfaces⟩
  rw [Shape.Describes, labelled_iff (by decide), listed_iff hitem (by decide)]
  simp [and_assoc]

theorem textMeans_interface_iff {interface : Interface} :
    TextMeans (levels + 2) (labelledList "name" name "methods" item) .interface interface ↔
      ∃ method, interface = ⟨name, [method]⟩ ∧ TextMeans levels item .method method := by
  apply ((formOf_labelledList hitem).describes_iff .interface).trans
  rcases interface with ⟨found, methods⟩
  rw [Shape.Describes, labelled_iff (by decide), listed_iff hitem (by decide)]
  simp [and_assoc]

theorem textMeans_method_iff {method : Method} :
    TextMeans (levels + 2) (labelledList "name" name "params" item) .method method ↔
      ∃ param, method = ⟨name, [param], [], none⟩ ∧ TextMeans levels item .parameter param := by
  apply ((formOf_labelledList hitem).describes_iff .method).trans
  rcases method with ⟨found, params, results, variadic⟩
  rw [Shape.Describes, labelled_iff (by decide), listed_iff hitem (by decide),
    defaulted_iff_of_absent (valuesAt_pair_of_ne (by decide) (by decide) _ _),
    defaulted_iff_of_absent (valuesAt_pair_of_ne (by decide) (by decide) _ _)]
  apply Iff.intro
  · intro h
    rcases h with ⟨rfl, ⟨param, rfl, hparam⟩, rfl, rfl⟩
    exact ⟨param, rfl, hparam⟩
  · intro h
    rcases h with ⟨param, heq, hparam⟩
    cases heq
    exact ⟨rfl, ⟨param, rfl, hparam⟩, rfl, rfl⟩

theorem textMeans_parameter_iff {parameter : Parameter} :
    TextMeans (levels + 1) (braced [("type", item)]) .parameter parameter ↔
      ∃ type, parameter = ⟨"", type⟩ ∧ TypeText levels item type := by
  apply ((formOf_braced_type hitem).describes_iff .parameter).trans
  rcases parameter with ⟨found, type⟩
  rw [Shape.Describes, defaulted_iff_of_absent (by simp [valuesAt]),
    required_iff_of_valuesAt (by simp [valuesAt]; rfl), textMeans_type]
  simp

variable (levels) in
/-- The text of a package is read as its only method is. -/
theorem textMeans_packageText_iff {package : Package} :
    TextMeans (levels + 4) (packageText item) .package package ↔
      ∃ method, package = ⟨"p", [⟨"I", [method]⟩]⟩ ∧ TextMeans levels item .method method := by
  apply (textMeans_package_iff (wellFormed_labelledList hitem)).trans
  simp only [textMeans_interface_iff hitem]
  apply Iff.intro
  · intro h
    rcases h with ⟨interface, rfl, method, rfl, hmethod⟩
    exact ⟨method, rfl, hmethod⟩
  · intro h
    rcases h with ⟨method, rfl, hmethod⟩
    exact ⟨_, rfl, method, rfl, hmethod⟩

variable (levels) in
/-- The text of a method is read as the type of its only parameter is. -/
theorem textMeans_takingText_iff {method : Method} :
    TextMeans (levels + 3) (takingText item) .method method ↔
      ∃ type, method = ⟨"W", [⟨"", type⟩], [], none⟩ ∧ TypeText levels item type := by
  apply (textMeans_method_iff (formOf_braced_type hitem).wellFormed_text).trans
  simp only [textMeans_parameter_iff hitem]
  apply Iff.intro
  · intro h
    rcases h with ⟨param, rfl, type, rfl, htype⟩
    exact ⟨type, rfl, htype⟩
  · intro h
    rcases h with ⟨type, rfl, htype⟩
    exact ⟨_, rfl, type, rfl, htype⟩

end Streamed

section Buffered

variable {levels : Nat} {key : String} {text x : Bytes}

theorem not_number_quoted (text : String) (literal : NumberLiteral) :
    ¬ NumberText (utf8 (quoted text)) literal :=
  not_numberText_of_stringText (stringText_quoted text) literal

theorem tagged_pair_iff {X : Type} {x y tag : X} {rest : Form X} (hkey : kindKey ≠ key) :
    (Form.entries [(kindKey, x), (key, y)]).Tagged tag rest ↔
      tag = x ∧ rest = .entries [(key, y)] := by
  simp [Form.Tagged, hkey.symm, eq_comm]

section Named

variable {name : String} (hkey : kindKey ≠ key)
  (hform : FormOf (.entries [(kindKey, utf8 (quoted name)), (key, x)]) text)

include hkey hform

theorem namesKinds_of_named : NamesKinds .type text := by
  intro tag htag
  rcases Reaches.type_cases hform htag with ⟨heq, -⟩ | ⟨-, rest, htagged⟩
  · cases heq
  · rw [((tagged_pair_iff hkey).1 htagged).1]
    exact not_number_quoted name

/-- A type of two entries whose kind is named is read off the other entry. -/
theorem denoted_named_iff (kind : Kind) (hname : name = kind.name) {type : GoType} :
    Denoted text .type type ↔
      DenotesTree x ∧ (Shape.variant kind).Describes (meanings Denoted [(key, x)]) type := by
  rw [hform.denoted_iff]
  apply Iff.intro
  · intro h
    rcases h with ⟨htrees, tag, rest, found, htagged, hfound, hrecord⟩
    obtain ⟨tag, rest, hplace, rfl, rfl⟩ := (Form.tagged_map_iff Denoted _ _ _).1 htagged
    obtain ⟨rfl, rfl⟩ := (tagged_pair_iff hkey).1 hplace
    have hkind := stringText_of_denoted_kind (not_number_quoted name) hfound
    obtain rfl := kind_eq_of_name_eq ((stringText_quoted_iff.1 hkind).trans hname)
    exact ⟨htrees x (List.mem_cons_of_mem _ List.mem_cons_self), hrecord.known⟩
  · intro h
    rcases h with ⟨hx, hdescribes⟩
    have htag : Denoted (utf8 (quoted name)) .kind kind :=
      ⟨_, .string (stringText_quoted name), .inl (congrArg Json.string hname)⟩
    refine ⟨fun value hvalue => ?_, _, _, kind, (tagged_pair_iff hkey).2 ⟨rfl, rfl⟩, htag,
      trivial, fun _ _ _ => trivial, hdescribes⟩
    rcases List.mem_pair.1 hvalue with rfl | rfl
    · exact ⟨_, .string (stringText_quoted name)⟩
    · exact hx

end Named

variable {method : Bytes} (hmethod : WellFormed method)

include hmethod

theorem denoted_bracketed_iff {target : Target} {values : List target.Value} :
    Denoted (bracketed [method]) (.sequence target) values ↔
      ∃ value, values = [value] ∧ Denoted method target value := by
  rw [(formOf_bracketed_singleton hmethod).denoted_iff]
  apply Iff.intro
  · intro h
    rcases h with ⟨-, _, heq, hitems⟩
    cases heq
    obtain ⟨value, _, hvalue, hrest, rfl⟩ := List.forall₂_cons_left_iff.1 hitems
    cases hrest
    exact ⟨value, rfl, hvalue⟩
  · intro h
    rcases h with ⟨value, rfl, hvalue⟩
    exact ⟨List.forall_mem_singleton.2 (denotesTree_of_denoted hvalue), _, rfl,
      .cons hvalue .nil⟩

/-- An interface literal is read from its tree as its only method is. -/
theorem denoted_literalText_iff {type : GoType} :
    Denoted (literalText method) .type type ↔
      ∃ found, type = .interface [found] ∧ Denoted method .method found := by
  have hkey : kindKey ≠ "methods" := by decide
  apply (denoted_named_iff hkey (formOf_labelledList hmethod) .interface rfl).trans
  have hvalues : valuesAt [("methods", bracketed [method])] "methods" = [bracketed [method]] := by
    simp [valuesAt]
  simp only [Shape.Describes, defaulted_iff_of_valuesAt hvalues, denoted_bracketed_iff hmethod]
  apply Iff.intro
  · intro h
    rcases h with ⟨-, methods, rfl, found, rfl, hfound⟩
    exact ⟨found, rfl, hfound⟩
  · intro h
    rcases h with ⟨found, rfl, hfound⟩
    have hmethods : Denoted (bracketed [method]) (.sequence .method) [found] :=
      (denoted_bracketed_iff hmethod).2 ⟨found, rfl, hfound⟩
    exact ⟨denotesTree_of_denoted hmethods, _, rfl, found, rfl, hfound⟩

/-- An interface literal is read as its only method is, if the levels suffice. -/
theorem typeText_literalText_iff (hnests : NestsWithin levels (literalText method))
    {type : GoType} :
    TypeText levels (literalText method) type ↔
      ∃ found, type = .interface [found] ∧ Denoted method .method found := by
  rw [← denoted_literalText_iff hmethod]
  apply Iff.intro
  · intro h
    obtain ⟨tree, htree, -, hmeaning⟩ := h.treeText
    exact ⟨tree, htree, hmeaning⟩
  · have hkey : kindKey ≠ "methods" := by decide
    exact typeText_of_denoted hnests (namesKinds_of_named hkey (formOf_labelledList hmethod))

end Buffered

end InterfaceProbe
