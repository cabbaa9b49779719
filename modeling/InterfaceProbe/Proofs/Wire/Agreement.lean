/-
# A method in two places

The text of a method may stand in an interface, where it is read while it goes by,
or in an interface literal, where it is read from a tree.  The layers around it
are taken off and leave the two readings of one text, which agree.

A kind given by its index, or a value that denotes no tree under an unknown key,
would tell the two places apart.
-/

import InterfaceProbe.Proofs.Wire.Enclosures
import InterfaceProbe.Proofs.Wire.RoundTrip

namespace InterfaceProbe

open Grammar Reader

section Agreement

theorem decode_line_iff {text : Bytes} {package : Package} (h : WellFormed text) :
    decode (utf8 sentinel ++ 10 :: text) = .ok package ↔
      TextMeans maxLevels text .package package := by
  have hpadded : Padded text text := ⟨[], [], Blank.nil, Blank.nil, (List.append_nil text).symm⟩
  rw [List.append_cons]
  exact decode_padded_iff .sentinel h hpadded package

variable {method : Bytes} (hmethod : WellFormed method)

include hmethod

/-- What the output of a probe is decoded to when the method stands in an interface. -/
theorem decode_packageText_iff {package : Package} :
    decode (utf8 sentinel ++ 10 :: packageText method) = .ok package ↔
      ∃ found, package = ⟨"p", [⟨"I", [found]⟩]⟩ ∧
        TextMeans (maxLevels - 4) method .method found := by
  rw [decode_line_iff (wellFormed_packageText hmethod)]
  exact textMeans_packageText_iff (maxLevels - 4) hmethod

/-- What the output of a probe is decoded to when the method stands in an interface literal. -/
theorem decode_literalText_iff
    (hnests : NestsWithin maxLevels (packageText (takingText (literalText method))))
    {package : Package} :
    decode (utf8 sentinel ++ 10 :: packageText (takingText (literalText method))) = .ok package ↔
      ∃ found, package = ⟨"p", [⟨"I", [⟨"W", [⟨"", .interface [found]⟩], [], none⟩]⟩]⟩ ∧
        Denoted method .method found := by
  have hliteral := wellFormed_literalText hmethod
  have hdepth : NestsWithin (maxLevels - 7) (literalText method) :=
    (nestsWithin_onlyType_iff hliteral).1 hnests
  apply (decode_packageText_iff (wellFormed_takingText hliteral)).trans
  have hinside (found : Method) : TextMeans (maxLevels - 4) (takingText (literalText method))
      .method found ↔ ∃ type, found = ⟨"W", [⟨"", type⟩], [], none⟩ ∧
        TypeText (maxLevels - 7) (literalText method) type :=
    textMeans_takingText_iff (maxLevels - 7) hliteral
  simp only [hinside, typeText_literalText_iff hmethod hdepth]
  apply Iff.intro
  · intro h
    rcases h with ⟨_, rfl, _, rfl, found, rfl, hfound⟩
    exact ⟨found, rfl, hfound⟩
  · intro h
    rcases h with ⟨found, rfl, hfound⟩
    exact ⟨_, rfl, _, rfl, found, rfl, hfound⟩

end Agreement

section Sample

variable {inner : Target} {part : Bytes}

/-- The text of the type `int`. -/
def intText : Bytes :=
  braced [(kindKey, utf8 (quoted "predeclared")), ("name", utf8 (quoted "int"))]

/-- The text of a parameter of the type `int`. -/
def intParameterText : Bytes := braced [("type", intText)]

/-- The entries of a method that takes any number of `int`; the last one means nothing. -/
def variadicMembers : List (String × Bytes) :=
  [("name", utf8 (quoted "M")), ("variadic", intParameterText), ("x", utf8 (quoted "y"))]

/-- The text of that method. -/
def variadicText : Bytes := braced variadicMembers

theorem mem_variadicMembers {member : String × Bytes} (h : member ∈ variadicMembers) :
    member = ("name", utf8 (quoted "M")) ∨ member = ("variadic", intParameterText) ∨
      member = ("x", utf8 (quoted "y")) := by
  simpa [variadicMembers] using h

theorem formOf_intText :
    FormOf (.entries [(kindKey, utf8 (quoted "predeclared")), ("name", utf8 (quoted "int"))])
      intText :=
  formOf_braced (List.forall_mem_cons.2 ⟨wellFormed_quoted _,
    List.forall_mem_singleton.2 (wellFormed_quoted _)⟩)

theorem formOf_intParameterText : FormOf (.entries [("type", intText)]) intParameterText :=
  formOf_braced_type formOf_intText.wellFormed_text

theorem formOf_variadicText : FormOf (.entries variadicMembers) variadicText := by
  refine formOf_braced fun member hmember => ?_
  rcases mem_variadicMembers hmember with rfl | rfl | rfl
  · exact wellFormed_quoted "M"
  · exact formOf_intParameterText.wellFormed_text
  · exact wellFormed_quoted "y"

theorem Reaches.text_eq {text : Bytes} (h : Reaches .text text inner part) : inner = .text := by
  cases h with
  | here => rfl
  | @slot shape _ _ _ _ _ _ _ htarget => cases shape <;> cases htarget

theorem reaches_intParameterText (h : Reaches .parameter intParameterText inner part) :
    inner = .parameter ∧ part = intParameterText ∨ inner = .type ∨
      inner = .kind ∧ part = utf8 (quoted "predeclared") := by
  rcases Reaches.record_cases .parameter rfl rfl formOf_intParameterText h with
    h | ⟨slot, -, value, hvalue, h⟩
  · exact .inl h
  · obtain ⟨hlabel, rfl⟩ := Prod.mk.inj (List.mem_singleton.1 hvalue)
    cases slot with
    | type =>
        rcases Reaches.type_cases formOf_intText h with ⟨hinner, -⟩ | ⟨hinner, rest, htagged⟩
        · exact .inr (.inl hinner)
        · exact .inr (.inr ⟨hinner, ((tagged_pair_iff (by decide)).1 htagged).1⟩)
    | _ => exact absurd hlabel (by decide)

/-- What is reached in the sample. -/
theorem reaches_variadicText (h : Reaches .method variadicText inner part) :
    inner = .method ∧ part = variadicText ∨ inner = .parameter ∧ part = intParameterText ∨
      inner = .kind ∧ part = utf8 (quoted "predeclared") ∨
      inner = .text ∨ inner = .type ∨ inner = .optional .parameter := by
  rcases Reaches.record_cases .method rfl rfl formOf_variadicText h with
    h | ⟨slot, -, value, hvalue, h⟩
  · exact .inl h
  · have hmember := mem_variadicMembers hvalue
    simp only [Prod.mk.injEq] at hmember
    rcases hmember with ⟨hlabel, rfl⟩ | ⟨hlabel, rfl⟩ | ⟨hlabel, rfl⟩
    · cases slot with
      | name | parameterName => exact .inr (.inr (.inr (.inl h.text_eq)))
      | _ => exact absurd hlabel (by decide)
    · cases slot with
      | variadic =>
          cases h with
          | here => simp
          | present h =>
              rcases reaches_intParameterText h with h | h | h <;> simp [h]
          | @slot shape _ _ _ _ _ _ _ htarget => cases shape <;> cases htarget
      | _ => exact absurd hlabel (by decide)
    · cases slot <;> exact absurd hlabel (by decide)

theorem namesKinds_variadicText : NamesKinds .method variadicText := by
  intro tag htag
  rcases reaches_variadicText htag with ⟨h, -⟩ | ⟨h, -⟩ | ⟨-, rfl⟩ | h | h | h
  · cases h
  · cases h
  · exact not_number_quoted "predeclared"
  all_goals cases h

theorem ignoresTrees_variadicText : IgnoresTrees .method variadicText := by
  intro shape part form hshape hpart hform member hmember hkey
  rcases reaches_variadicText hpart with ⟨h, rfl⟩ | ⟨h, rfl⟩ | ⟨h, -⟩ | h | h | h
  · obtain rfl := Shape.eq_of_target .method rfl hshape h
    obtain rfl := hform.unique formOf_variadicText
    rcases mem_variadicMembers hmember with rfl | rfl | rfl
    · exact absurd List.mem_cons_self hkey
    · exact absurd (by simp [Shape.keys]) hkey
    · exact ⟨_, .string (stringText_quoted "y")⟩
  · obtain rfl := Shape.eq_of_target .parameter rfl hshape h
    obtain rfl := hform.unique formOf_intParameterText
    obtain rfl := List.mem_singleton.1 hmember
    exact absurd (by simp [Shape.keys]) hkey
  · cases shape <;> cases h
  · cases shape <;> cases h
  · exact absurd h (Shape.target_ne_type hshape)
  · cases shape <;> cases h

theorem nestsWithin_variadicText : NestsWithin 3 variadicText := by
  have htype : NestsWithin 1 intText := by
    refine (formOf_intText.nestsWithin_succ_iff List.mem_cons_self fun other hother => ?_).2
      (nestsWithin_quoted 0 "predeclared")
    rcases List.mem_pair.1 hother with rfl | rfl
    · exact .inl rfl
    · exact .inr ⟨"int", rfl⟩
  have hparameter : NestsWithin 2 intParameterText :=
    (formOf_intParameterText.nestsWithin_succ_iff List.mem_cons_self
      fun _ hother => .inl (List.mem_singleton.1 hother)).2 htype
  refine (formOf_variadicText.nestsWithin_succ_iff
    (List.mem_cons_of_mem _ List.mem_cons_self) fun other hother => ?_).2 hparameter
  obtain ⟨member, hmember, rfl⟩ := List.mem_map.1 hother
  rcases mem_variadicMembers hmember with rfl | rfl | rfl
  · exact .inr ⟨"M", rfl⟩
  · exact .inl rfl
  · exact .inr ⟨"y", rfl⟩

end Sample

/-- A method is read the same in an interface and in an interface literal, or rejected in both, if
it names its kinds, what it says under unknown keys denotes trees, and the deeper text nests within
the levels. -/
theorem readings_agree (method : Bytes) (hmethod : WellFormed method)
    (hnests : NestsWithin maxLevels (packageText (takingText (literalText method))))
    (hkinds : NamesKinds .method method) (hignores : IgnoresTrees .method method) :
    (∀ found, decode (utf8 sentinel ++ 10 :: packageText method) =
        .ok ⟨"p", [⟨"I", [found]⟩]⟩ ↔
      decode (utf8 sentinel ++ 10 :: packageText (takingText (literalText method))) =
        .ok ⟨"p", [⟨"I", [⟨"W", [⟨"", .interface [found]⟩], [], none⟩]⟩]⟩) ∧
    ((∃ package, decode (utf8 sentinel ++ 10 :: packageText method) = .ok package) ↔
      ∃ package, decode (utf8 sentinel ++ 10 :: packageText (takingText (literalText method))) =
        .ok package) := by
  have hliteral := wellFormed_literalText hmethod
  have hdepth : NestsWithin (maxLevels - 9) method :=
    (nestsWithin_literalText_iff hmethod).1 ((nestsWithin_onlyType_iff hliteral).1 hnests)
  have hagree (found : Method) : TextMeans (maxLevels - 4) method .method found ↔
      Denoted method .method found := by
    apply Iff.intro
    · exact denoted_of_textMeans hignores
    · refine textMeans_of_denoted hkinds fun tree htree => ?_
      exact Nat.le_trans (hdepth tree htree) (by decide)
  simp only [decode_packageText_iff hmethod, decode_literalText_iff hmethod hnests, hagree]
  refine ⟨fun found => by simp, ?_⟩
  apply Iff.intro
  · intro h
    rcases h with ⟨_, found, rfl, hfound⟩
    exact ⟨_, found, rfl, hfound⟩
  · intro h
    rcases h with ⟨_, found, rfl, hfound⟩
    exact ⟨_, found, rfl, hfound⟩

theorem readings_agree_of_unknown_entry :
    (WellFormed variadicText ∧
      NestsWithin maxLevels (packageText (takingText (literalText variadicText))) ∧
      NamesKinds .method variadicText ∧ IgnoresTrees .method variadicText) ∧
    (∀ found, decode (utf8 sentinel ++ 10 :: packageText variadicText) =
        .ok ⟨"p", [⟨"I", [found]⟩]⟩ ↔
      decode (utf8 sentinel ++ 10 :: packageText (takingText (literalText variadicText))) =
        .ok ⟨"p", [⟨"I", [⟨"W", [⟨"", .interface [found]⟩], [], none⟩]⟩]⟩) ∧
    ((∃ package, decode (utf8 sentinel ++ 10 :: packageText variadicText) = .ok package) ↔
      ∃ package, decode (utf8 sentinel ++
        10 :: packageText (takingText (literalText variadicText))) = .ok package) := by
  have hmethod : WellFormed variadicText := formOf_variadicText.wellFormed_text
  have hliteral := wellFormed_literalText hmethod
  have hnests : NestsWithin maxLevels (packageText (takingText (literalText variadicText))) :=
    (nestsWithin_onlyType_iff hliteral).2 ((nestsWithin_literalText_iff hmethod).2
      fun tree htree => Nat.le_trans (nestsWithin_variadicText tree htree) (by decide))
  exact ⟨⟨hmethod, hnests, namesKinds_variadicText, ignoresTrees_variadicText⟩,
    readings_agree _ hmethod hnests namesKinds_variadicText ignoresTrees_variadicText⟩

/-- The text of a method whose only parameter gives the kind of its type by an index. -/
def indexedText : Bytes :=
  labelledList "name" "M" "params"
    (braced [("type", braced [(kindKey, utf8 "8"), ("name", utf8 (quoted "int"))])])

-- Only a tree is read where a kind is a number.
example : (decode (utf8 sentinel ++ 10 :: packageText indexedText)).isOk = false ∧
    (decode (utf8 sentinel ++ 10 :: packageText (takingText (literalText indexedText)))).isOk =
      true := by decide +kernel

end InterfaceProbe
