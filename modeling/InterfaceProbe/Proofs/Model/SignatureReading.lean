/-
# Reading signatures

Two signatures with a rest behind each are read from the left at the same time.
If the types in one of them are told apart (`GoType.Recognised`), then so are its
arguments, its lists and the whole signature.  A list is read member by member up
to its closing mark.  An argument without a name could be taken for one that has
a name only if its type began with a word and a blank; the words that do are kept
by the language, and a leaf is followed by a blank only before a closing brace.
-/

import InterfaceProbe.Proofs.Model.Openings

namespace InterfaceProbe

section Lists

variable {α κ : Type} {domain : α → Prop} {text : α → String} {key : α → κ}

/-- With a rest behind it, the text of `a` is that of another member of the domain only if both
have one key, and the rests are the same then. -/
def ReadOff (domain : α → Prop) (text : α → String) (key : α → κ) (a : α) : Prop :=
  ∀ b, domain b → ∀ rest tail, Stops rest → Stops tail →
    (text a).toList ++ rest = (text b).toList ++ tail → key a = key b ∧ rest = tail

/-- What stands behind a member of a list: the closing mark, or the separator and what is left. -/
def behindMember (separator closing : String) (rest : List Char) : List String → List Char
  | [] => closing.toList ++ rest
  | next :: texts =>
    separator.toList ++ ((separated separator (next :: texts)).toList ++ (closing.toList ++ rest))

theorem toList_separated_cons (separator closing member : String) (texts : List String)
    (rest : List Char) :
    (separated separator (member :: texts)).toList ++ (closing.toList ++ rest) =
      member.toList ++ behindMember separator closing rest texts := by
  cases texts <;> simp [separated, behindMember]

/-- The texts of lists between a separator and a closing mark are told apart if those of the
members are. -/
theorem readOff_separated (separator closing : String)
    (hseparator : ∀ rest, Stops (separator.toList ++ rest))
    (hclosing : ∀ rest, Stops (closing.toList ++ rest))
    (hmarks : ∀ rest tail, separator.toList ++ rest ≠ closing.toList ++ tail)
    (hstart : ∀ a, domain a → ∀ rest tail, Stops rest →
      (text a).toList ++ rest ≠ closing.toList ++ tail)
    {members others : List α} (hmembers : ∀ a ∈ members, domain a ∧ ReadOff domain text key a)
    (hothers : ∀ b ∈ others, domain b) {rest tail : List Char}
    (heq : (separated separator (members.map text)).toList ++ (closing.toList ++ rest) =
      (separated separator (others.map text)).toList ++ (closing.toList ++ tail)) :
    members.map key = others.map key ∧ rest = tail := by
  have hstops (rest : List Char) (texts : List String) :
      Stops (behindMember separator closing rest texts) := by
    cases texts with
    | nil => exact hclosing rest
    | cons next texts => exact hseparator _
  induction members generalizing others with
  | nil =>
      cases others with
      | nil => simpa [separated] using heq
      | cons b others =>
          rw [List.map_cons, toList_separated_cons] at heq
          exact absurd heq.symm (hstart b (hothers b List.mem_cons_self) _ _ (hstops _ _))
  | cons a members ih =>
      obtain ⟨⟨ha, hread⟩, hmembers⟩ := List.forall_mem_cons.1 hmembers
      rw [List.map_cons, toList_separated_cons] at heq
      cases others with
      | nil => exact absurd heq (hstart a ha _ _ (hstops _ _))
      | cons b others =>
          obtain ⟨hb, hothers⟩ := List.forall_mem_cons.1 hothers
          rw [List.map_cons, toList_separated_cons] at heq
          obtain ⟨hkey, hbehind⟩ := hread b hb _ _ (hstops _ _) (hstops _ _) heq
          cases members with
          | nil =>
              cases others with
              | nil =>
                  have hrest : rest = tail := List.append_cancel_left hbehind
                  exact ⟨by rw [List.map_singleton, hkey, List.map_singleton], hrest⟩
              | cons next others => exact absurd hbehind.symm (hmarks _ _)
          | cons next members =>
              cases others with
              | nil => exact absurd hbehind (hmarks _ _)
              | cons next' others =>
                  obtain ⟨hkeys, htail⟩ :=
                    ih hmembers hothers (List.append_cancel_left hbehind)
                  exact ⟨List.cons_eq_cons.2 ⟨hkey, hkeys⟩, htail⟩

end Lists

section Arguments

variable {qualifiers : Qualifiers} {localPackage : String}

/-- A type begins with a word or with one of its marks. -/
theorem GoType.Legible.ne_mark {type : GoType} (h : type.Legible qualifiers localPackage)
    {rest : List Char} (hrest : Stops rest) {mark : Char}
    (hmark : mark ∈ [' ', '.', '(', ')', '\x7d']) (tail : List Char) :
    (type.spelling qualifiers localPackage).toList ++ rest ≠ mark :: tail := by
  intro heq
  obtain ⟨hword, hnone⟩ : isWordChar mark = false ∧ kindOfMark? mark = none := by
    simp only [List.mem_cons, List.not_mem_nil, or_false] at hmark
    rcases hmark with rfl | rfl | rfl | rfl | rfl <;> exact ⟨rfl, rfl⟩
  have hkind := openedKind?_spelling h hrest
  rw [heq, openedKind?_mark hword, hnone] at hkind
  cases hkind

/-- What stands behind the name of an argument: its type, possibly behind three dots. -/
inductive ArgumentBody (qualifiers : Qualifiers) (localPackage : String) : List Char → Prop
  | plain {type : GoType} {rest : List Char} : type.Legible qualifiers localPackage →
      Stops rest → ArgumentBody qualifiers localPackage
        ((type.spelling qualifiers localPackage).toList ++ rest)
  | dots {text : List Char} : ArgumentBody qualifiers localPackage ('.' :: text)

theorem ArgumentBody.ne_mark {body : List Char} (h : ArgumentBody qualifiers localPackage body)
    {mark : Char} (hmark : mark ∈ [' ', '(', ')', '\x7d']) (tail : List Char) :
    body ≠ mark :: tail := by
  cases h with
  | plain htype hrest =>
      have hmark' : mark ∈ [' ', '.', '(', ')', '\x7d'] := by
        simp only [List.mem_cons, List.not_mem_nil, or_false] at hmark ⊢
        exact hmark.imp_right Or.inr
      exact htype.ne_mark hrest hmark' tail
  | dots =>
      rintro ⟨⟩
      exact absurd hmark (by decide)

/-- A name with a blank behind it is no beginning of an argument without a name. -/
theorem ArgumentBody.ne_named {body other : List Char}
    (h : ArgumentBody qualifiers localPackage body)
    (hother : ArgumentBody qualifiers localPackage other) {name : String}
    (hname : IsIdentifier name) : body ≠ name.toList ++ ' ' :: other := by
  intro heq
  cases h with
  | dots =>
      obtain ⟨c, tail, hcons, hc⟩ := hname.start
      rw [hcons] at heq
      rw [← (List.cons.inj heq).1] at hc
      exact absurd hc (by decide)
  | @plain type rest htype hrest =>
      have hblank : ∀ c ∈ (' ' :: other).head?, isWordChar c = false := by
        rintro c ⟨⟩
        rfl
      have hkind := openedKind?_spelling htype hrest
      rw [heq, openedKind?_word hname.ne_empty hname.isWordChar hblank,
        kindOfWord_of_identifier hname] at hkind
      obtain ⟨first, hfirst, more, htext, hmore⟩ := htype.leaf (Option.some.inj hkind).symm
      rw [htext, List.append_assoc] at heq
      have hhead : ∀ c ∈ (more ++ rest).head?, isWordChar c = false := by
        rcases hmore with rfl | ⟨_, -, rfl⟩
        · exact fun c hc => (hrest.head c hc).1
        · rintro c ⟨⟩
          rfl
      obtain ⟨-, hbehind⟩ := run_unique hfirst.isWordChar hname.isWordChar hhead hblank heq
      rcases hmore with rfl | ⟨_, -, rfl⟩
      · rw [List.nil_append] at hbehind
        rw [hbehind] at hrest
        -- Only a closing brace may follow the blank, and no argument begins with one.
        cases hrest with
        | mark hc => exact absurd hc (by decide)
        | brace => exact hother.ne_mark (by decide) _ rfl
      · cases hbehind

/-- What stands before the type of an argument and its dots. -/
def nameFront (name : String) : List Char := if name = "" then [] else name.toList ++ [' ']

/-- The name of an argument is told from its type. -/
theorem ArgumentBody.name_unique {body other : List Char}
    (h : ArgumentBody qualifiers localPackage body)
    (hother : ArgumentBody qualifiers localPackage other) {name otherName : String}
    (hname : name ≠ "" → IsIdentifier name) (hotherName : otherName ≠ "" → IsIdentifier otherName)
    (heq : nameFront name ++ body = nameFront otherName ++ other) :
    name = otherName ∧ body = other := by
  have hblank (text : List Char) : ∀ c ∈ (' ' :: text).head?, isWordChar c = false := by
    rintro c ⟨⟩
    rfl
  unfold nameFront at heq
  split at heq <;> split at heq
  · next hempty hempty' => exact ⟨hempty.trans hempty'.symm, heq⟩
  · next hne =>
      rw [List.append_assoc] at heq
      exact absurd heq (h.ne_named hother (hotherName hne))
  · next hne _ =>
      rw [List.append_assoc] at heq
      exact absurd heq.symm (hother.ne_named h (hname hne))
  · next hne hne' =>
      rw [List.append_assoc, List.append_assoc] at heq
      obtain ⟨hsame, hbody⟩ := run_unique (hname hne).isWordChar (hotherName hne').isWordChar
        (hblank body) (hblank other) heq
      exact ⟨String.toList_inj.1 hsame, (List.cons.inj hbody).2⟩

/-- The dots before the type of a variadic parameter. -/
def dotsFront (marked : Bool) : List Char := if marked then ['.', '.', '.'] else []

theorem toList_spelledArgument (argument : Bool × Parameter) :
    (spelledArgument qualifiers localPackage argument).toList =
      nameFront argument.2.name ++ (dotsFront argument.1 ++
        (argument.2.type.spelling qualifiers localPackage).toList) := by
  obtain ⟨marked, name, type⟩ := argument
  by_cases hname : name = "" <;> cases marked <;>
    simp [spelledArgument, spelledVariadic, spelledParameter, nameFront, dotsFront, hname]

variable (qualifiers localPackage) in
/-- An argument with the outline of its type. -/
def argumentOutline (argument : Bool × Parameter) : Bool × Parameter :=
  (argument.1, argument.2.outline qualifiers localPackage)

theorem argumentBody {argument : Bool × Parameter} (h : argument.2.Legible qualifiers localPackage)
    {rest : List Char} (hrest : Stops rest) : ArgumentBody qualifiers localPackage
      (dotsFront argument.1 ++
        ((argument.2.type.spelling qualifiers localPackage).toList ++ rest)) := by
  cases hmarked : argument.1 with
  | false => exact .plain h.type hrest
  | true => exact .dots

variable (qualifiers localPackage) in
/-- The spelling of a legible type is told apart from those of types with another outline. -/
abbrev GoType.Recognised (type : GoType) : Prop :=
  ReadOff (Legible qualifiers localPackage) (spelling qualifiers localPackage)
    (outline qualifiers localPackage) type

theorem readOff_argument {argument : Bool × Parameter}
    (h : argument.2.Legible qualifiers localPackage)
    (htype : argument.2.type.Recognised qualifiers localPackage) :
    ReadOff (fun argument => argument.2.Legible qualifiers localPackage)
      (spelledArgument qualifiers localPackage) (argumentOutline qualifiers localPackage)
      argument := by
  intro other hother rest tail hrest htail heq
  simp only [toList_spelledArgument, List.append_assoc] at heq
  obtain ⟨hname, hbody⟩ :=
    (argumentBody h hrest).name_unique (argumentBody hother htail) h.name hother.name heq
  suffices hmarked : argument.1 = other.1 by
    rw [hmarked] at hbody
    obtain ⟨houtline, hsame⟩ := htype _ hother.type _ _ hrest htail (List.append_cancel_left hbody)
    refine ⟨Prod.ext hmarked ?_, hsame⟩
    simp [argumentOutline, Parameter.outline, hname, houtline]
  -- No type begins with a dot.
  obtain ⟨marked, p⟩ := argument
  obtain ⟨marked', p'⟩ := other
  cases marked with
  | false =>
      cases marked' with
      | false => rfl
      | true => exact absurd hbody (h.type.ne_mark hrest (by decide : '.' ∈ _) _)
  | true =>
      cases marked' with
      | false => exact absurd hbody.symm (hother.type.ne_mark htail (by decide : '.' ∈ _) _)
      | true => rfl

theorem argument_ne_closing {argument : Bool × Parameter}
    (h : argument.2.Legible qualifiers localPackage) {rest : List Char} (hrest : Stops rest)
    (tail : List Char) :
    (spelledArgument qualifiers localPackage argument).toList ++ rest ≠ ')' :: tail := by
  intro heq
  simp only [toList_spelledArgument, List.append_assoc] at heq
  by_cases hname : argument.2.name = ""
  · rw [nameFront, if_pos hname] at heq
    exact (argumentBody h hrest).ne_mark (by decide : ')' ∈ _) tail heq
  · obtain ⟨c, name, hcons, hc⟩ := (h.name hname).start
    rw [nameFront, if_neg hname, hcons] at heq
    rw [(List.cons.inj heq).1] at hc
    exact absurd hc (by decide)

theorem arguments_injective {params others : List Parameter} {variadic other : Option Parameter}
    (h : arguments params variadic = arguments others other) :
    params = others ∧ variadic = other := by
  have hplain (params : List Parameter) (variadic : Option Parameter) :
      (arguments params variadic).filterMap (fun a => if a.1 then none else some a.2) = params := by
    simp only [arguments, List.filterMap_append, List.filterMap_map, Function.comp_def,
      Bool.false_eq_true, ↓reduceIte, List.filterMap_some]
    simp
  have hmarked (params : List Parameter) (variadic : Option Parameter) :
      (arguments params variadic).filterMap (fun a => if a.1 then some a.2 else none) =
        variadic.toList := by
    simp only [arguments, List.filterMap_append, List.filterMap_map, Function.comp_def,
      Bool.false_eq_true, ↓reduceIte, List.filterMap_some]
    simp
  refine ⟨by rw [← hplain params variadic, h, hplain], ?_⟩
  rw [← Option.head?_toList (o := variadic), ← hmarked params variadic, h, hmarked,
    Option.head?_toList]

/-- The list between the parentheses of a signature is told apart, with what is behind it. -/
theorem arguments_unique {params others : List Parameter} {variadic other : Option Parameter}
    (hparams : ∀ p ∈ params, p.Legible qualifiers localPackage ∧
      p.type.Recognised qualifiers localPackage)
    (hvariadic : ∀ p ∈ variadic, p.Legible qualifiers localPackage ∧
      p.type.Recognised qualifiers localPackage)
    (hothers : ∀ p ∈ others, p.Legible qualifiers localPackage)
    (hother : ∀ p ∈ other, p.Legible qualifiers localPackage) {rest tail : List Char}
    (heq : (separated ", "
          ((arguments params variadic).map (spelledArgument qualifiers localPackage))).toList ++
        ')' :: rest =
      (separated ", "
          ((arguments others other).map (spelledArgument qualifiers localPackage))).toList ++
        ')' :: tail) :
    params.map (Parameter.outline qualifiers localPackage) =
        others.map (Parameter.outline qualifiers localPackage) ∧
      variadic.map (Parameter.outline qualifiers localPackage) =
        other.map (Parameter.outline qualifiers localPackage) ∧ rest = tail := by
  have houtline (params : List Parameter) (variadic : Option Parameter) :
      (arguments params variadic).map (argumentOutline qualifiers localPackage) =
        arguments (params.map (Parameter.outline qualifiers localPackage))
          (variadic.map (Parameter.outline qualifiers localPackage)) := by
    cases variadic <;> simp [arguments, argumentOutline, Function.comp_def]
  have hmembers : ∀ a ∈ arguments params variadic, a.2.Legible qualifiers localPackage ∧
      ReadOff (fun argument => argument.2.Legible qualifiers localPackage)
        (spelledArgument qualifiers localPackage) (argumentOutline qualifiers localPackage) a := by
    intro a ha
    obtain ⟨hlegible, htype⟩ := forall_mem_arguments.2 ⟨hparams, hvariadic⟩ a ha
    exact ⟨hlegible, readOff_argument hlegible htype⟩
  obtain ⟨hkeys, hrest⟩ := readOff_separated ", " ")"
    (fun rest => .mark (by decide)) (fun rest => .mark (by decide))
    (fun rest tail h => absurd (List.cons.inj h).1 (by decide))
    (fun a ha rest tail hrest => argument_ne_closing ha hrest tail)
    hmembers (forall_mem_arguments.2 ⟨hothers, hother⟩) heq
  rw [houtline, houtline] at hkeys
  obtain ⟨hsame, hsame'⟩ := arguments_injective hkeys
  exact ⟨hsame, hsame', hrest⟩

end Arguments

section Signatures

variable {qualifiers : Qualifiers} {localPackage : String} {rest tail : List Char}

/-- Whether results follow, and if so, whether they stand between parentheses. -/
def openedResults? : List Char → Option Bool
  | ' ' :: '(' :: _ => some true
  | ' ' :: '\x7d' :: _ => none
  | ' ' :: _ => some false
  | _ => none

theorem openedResults?_stops (h : Stops rest) : openedResults? rest = none := by
  cases h with
  | nil => rfl
  | @mark c rest hc =>
      have hblank : c ≠ ' ' := by
        rintro rfl
        exact absurd hc (by decide)
      unfold openedResults?
      split <;> simp_all
  | brace => rfl

theorem openedResults?_bare {type : GoType} (h : type.Legible qualifiers localPackage)
    (hrest : Stops rest) :
    openedResults? (' ' :: ((type.spelling qualifiers localPackage).toList ++ rest)) =
      some false := by
  unfold openedResults?
  split
  · next heq => exact absurd (List.cons.inj heq).2 (h.ne_mark hrest (by decide : '(' ∈ _) _)
  · next heq => exact absurd (List.cons.inj heq).2 (h.ne_mark hrest (by decide : '\x7d' ∈ _) _)
  · rfl
  · next hother => exact absurd rfl (hother _)

theorem toList_spelledResults_bare (type : GoType) (rest : List Char) :
    (spelledResults (spelledParameters qualifiers localPackage [⟨"", type⟩])).toList ++ rest =
      ' ' :: ((type.spelling qualifiers localPackage).toList ++ rest) := by
  simp [spelledResults]

/-- Results are nothing, one bare type or a list between parentheses, and their text tells. -/
theorem openedResults?_cases {results : List Parameter}
    (h : ∀ p ∈ results, p.Legible qualifiers localPackage) (hrest : Stops rest) :
    let text := (spelledResults (spelledParameters qualifiers localPackage results)).toList ++ rest
    (openedResults? text = none ∧ results = []) ∨
      (openedResults? text = some false ∧ ∃ type, results = [⟨"", type⟩]) ∨
        (openedResults? text = some true ∧ text = ' ' :: '(' :: ((separated ", "
          ((arguments results none).map (spelledArgument qualifiers localPackage))).toList ++
            ')' :: rest)) := by
  intro text
  rcases spelledResults_cases results with rfl | ⟨type, rfl⟩ | hlisted
  · exact Or.inl ⟨openedResults?_stops hrest, rfl⟩
  · refine Or.inr (Or.inl ⟨?_, type, rfl⟩)
    have htype := (List.forall_mem_singleton.1 h).type
    rw [← openedResults?_bare htype hrest, ← toList_spelledResults_bare]
  · right; right
    have htext : text = ' ' :: '(' :: ((separated ", "
        ((arguments results none).map (spelledArgument qualifiers localPackage))).toList ++
          ')' :: rest) := by
      show (spelledResults _).toList ++ rest = _
      rw [hlisted]
      simp
    exact ⟨by rw [htext]; rfl, htext⟩

/-- What is spelled of results is told apart, with what is behind it. -/
theorem results_unique {results others : List Parameter}
    (hresults : ∀ p ∈ results, p.Legible qualifiers localPackage ∧
      p.type.Recognised qualifiers localPackage)
    (hothers : ∀ p ∈ others, p.Legible qualifiers localPackage)
    (hrest : Stops rest) (htail : Stops tail)
    (heq : (spelledResults (spelledParameters qualifiers localPackage results)).toList ++ rest =
      (spelledResults (spelledParameters qualifiers localPackage others)).toList ++ tail) :
    results.map (Parameter.outline qualifiers localPackage) =
        others.map (Parameter.outline qualifiers localPackage) ∧ rest = tail := by
  have hopened := congrArg openedResults? heq
  rcases openedResults?_cases (fun p hp => (hresults p hp).1) hrest with
    ⟨h, rfl⟩ | ⟨h, type, rfl⟩ | ⟨h, htext⟩ <;>
  rcases openedResults?_cases hothers htail with
    ⟨h', rfl⟩ | ⟨h', other, rfl⟩ | ⟨h', htext'⟩ <;>
  rw [h, h'] at hopened
  case inl.inl => exact ⟨rfl, heq⟩
  case inr.inl.inr.inl =>
    rw [toList_spelledResults_bare, toList_spelledResults_bare] at heq
    obtain ⟨hlegible, htype⟩ := List.forall_mem_singleton.1 hresults
    obtain ⟨houtline, hsame⟩ := htype other (List.forall_mem_singleton.1 hothers).type _ _ hrest
      htail (List.cons.inj heq).2
    refine ⟨?_, hsame⟩
    simp only [List.map_singleton, Parameter.outline]
    rw [houtline]
  case inr.inr.inr.inr =>
    rw [htext, htext'] at heq
    have hnone {condition : Parameter → Prop} : ∀ p ∈ (none : Option Parameter), condition p := by
      simp
    obtain ⟨houtline, -, hsame⟩ :=
      arguments_unique hresults hnone hothers hnone (List.cons.inj (List.cons.inj heq).2).2
    exact ⟨houtline, hsame⟩
  all_goals cases hopened

/-- A signature is told apart, with what is behind it. -/
theorem signature_unique {m n : Method}
    (hm : ∀ p ∈ m.declared, p.Legible qualifiers localPackage ∧
      p.type.Recognised qualifiers localPackage)
    (hn : n.Legible qualifiers localPackage) (hrest : Stops rest) (htail : Stops tail)
    (heq : (m.signature qualifiers localPackage).toList ++ rest =
      (n.signature qualifiers localPackage).toList ++ tail) :
    { m.outline qualifiers localPackage with name := n.name } = n.outline qualifiers localPackage ∧
      rest = tail := by
  obtain ⟨hparams, hresults, hvariadic⟩ := Method.forall_mem_declared.1 hm
  obtain ⟨hparams', hresults', hvariadic'⟩ := Method.forall_mem_declared.1 hn
  have htext (m : Method) (rest : List Char) :
      (m.signature qualifiers localPackage).toList ++ rest =
        '(' :: ((separated ", " ((arguments m.params m.variadic).map
          (spelledArgument qualifiers localPackage))).toList ++ ')' ::
            ((spelledResults (spelledParameters qualifiers localPackage m.results)).toList ++
              rest)) := by
    rw [Method.signature, spelledSignature_eq]
    simp
  rw [htext, htext] at heq
  obtain ⟨hargs, hvar, hbehind⟩ :=
    arguments_unique hparams hvariadic hparams' hvariadic' (List.cons.inj heq).2
  obtain ⟨hres, hsame⟩ := results_unique hresults hresults' hrest htail hbehind
  exact ⟨by simp only [Method.outline, hargs, hvar, hres], hsame⟩

end Signatures

end InterfaceProbe
