/-
# Spellings are uniquely readable

Two legible types with one spelling have one outline, by induction on one of
them: the kinds agree by the openings, and what follows is read from the left up
to the next type or name.

The spelling alone does not tell a declared type from one of the universe scope,
nor two packages that go by one name; outlines leave that open.
-/

import InterfaceProbe.Proofs.Model.SignatureReading

namespace InterfaceProbe

section Literals

variable {qualifiers : Qualifiers} {localPackage : String}

/-- A name is told from what follows it, which begins with a mark. -/
theorem name_unique {name other : String} (hname : IsIdentifier name) (hother : IsIdentifier other)
    {mark : Char} (hmark : isWordChar mark = false) {rest tail : List Char}
    (heq : name.toList ++ mark :: rest = other.toList ++ mark :: tail) :
    name = other ∧ rest = tail := by
  have hhead (rest : List Char) : ∀ c ∈ (mark :: rest).head?, isWordChar c = false := by
    rintro c ⟨⟩
    exact hmark
  obtain ⟨hsame, hrest⟩ :=
    run_unique hname.isWordChar hother.isWordChar (hhead rest) (hhead tail) heq
  exact ⟨String.toList_inj.1 hsame, (List.cons.inj hrest).2⟩

theorem name_ne_blank {name : String} (hname : IsIdentifier name) (rest tail : List Char) :
    name.toList ++ rest ≠ ' ' :: tail := by
  intro heq
  obtain ⟨c, more, hcons, hc⟩ := hname.start
  rw [hcons] at heq
  rw [(List.cons.inj heq).1] at hc
  exact absurd hc (by decide)

/-- The members of braced literals are told apart if each of them is. -/
theorem literal_unique {α κ : Type} {domain : α → Prop} {text : α → String} {key : α → κ}
    (keyword : String) (hstart : ∀ a, domain a → ∀ rest tail, (text a).toList ++ rest ≠ ' ' :: tail)
    {members others : List α} (hmembers : ∀ a ∈ members, domain a ∧ ReadOff domain text key a)
    (hothers : ∀ b ∈ others, domain b) {rest tail : List Char}
    (heq : (spelledLiteral keyword (members.map text)).toList ++ rest =
      (spelledLiteral keyword (others.map text)).toList ++ tail) :
    members.map key = others.map key ∧ rest = tail := by
  have hmany (a : α) (more : List α) (rest : List Char) :
      (spelledLiteral keyword ((a :: more).map text)).toList ++ rest =
        keyword.toList ++ '\x7b' :: ' ' ::
          ((separated "; " ((a :: more).map text)).toList ++ ' ' :: '\x7d' :: rest) := by
    simp [spelledLiteral]
  have hnone (rest : List Char) : (spelledLiteral keyword (([] : List α).map text)).toList ++ rest =
      keyword.toList ++ '\x7b' :: '\x7d' :: rest := by
    simp [spelledLiteral]
  cases members with
  | nil =>
      cases others with
      | nil => exact ⟨rfl, List.append_cancel_left heq⟩
      | cons b others =>
          rw [hnone, hmany, List.append_cancel_left_eq] at heq
          exact absurd (List.cons.inj (List.cons.inj heq).2).1 (by decide)
  | cons a members =>
      cases others with
      | nil =>
          rw [hnone, hmany, List.append_cancel_left_eq] at heq
          exact absurd (List.cons.inj (List.cons.inj heq).2).1 (by decide)
      | cons b others =>
          rw [hmany, hmany, List.append_cancel_left_eq] at heq
          exact readOff_separated "; " " \x7d" (fun _ => .mark (by decide)) (fun _ => .brace)
            (fun _ _ h => absurd (List.cons.inj h).1 (by decide))
            (fun a ha rest tail _ => hstart a ha rest _) hmembers hothers
            (List.cons.inj (List.cons.inj heq).2).2

/-- A field of a literal, spelled. -/
theorem readOff_field {f : Field} (hname : IsIdentifier f.name)
    (htype : f.type.Recognised qualifiers localPackage) :
    ReadOff (fun f => IsIdentifier f.name ∧ f.type.Legible qualifiers localPackage)
      (fun f => f.name ++ " " ++ f.type.spelling qualifiers localPackage)
      (Field.outline qualifiers localPackage) f := by
  intro other hother rest tail hrest htail heq
  simp only [String.toList_append, List.append_assoc] at heq
  obtain ⟨hsame, hbehind⟩ := name_unique hname hother.1 (by decide : isWordChar ' ' = false) heq
  obtain ⟨houtline, hrests⟩ := htype _ hother.2 _ _ hrest htail hbehind
  exact ⟨by simp only [Field.outline, hsame, houtline], hrests⟩

theorem readOff_method {m : Method} (hname : IsIdentifier m.name)
    (hm : ∀ p ∈ m.declared, p.Legible qualifiers localPackage ∧
      p.type.Recognised qualifiers localPackage) :
    ReadOff (fun m => IsIdentifier m.name ∧ m.Legible qualifiers localPackage)
      (fun m => m.name ++ m.signature qualifiers localPackage)
      (Method.outline qualifiers localPackage) m := by
  intro other hother rest tail hrest htail heq
  have hparen (m : Method) : ∃ inside, (m.signature qualifiers localPackage).toList =
      '(' :: inside := by
    rw [Method.signature, spelledSignature_eq]
    exact ⟨_, by simp only [String.toList_append, List.append_assoc]; rfl⟩
  obtain ⟨inside, hinside⟩ := hparen m
  obtain ⟨inside', hinside'⟩ := hparen other
  simp only [String.toList_append, List.append_assoc, hinside, hinside', List.cons_append] at heq
  obtain ⟨hsame, hbehind⟩ := name_unique hname hother.1 (by decide : isWordChar '(' = false) heq
  have hsignature : (m.signature qualifiers localPackage).toList ++ rest =
      (other.signature qualifiers localPackage).toList ++ tail := by
    rw [hinside, hinside', List.cons_append, List.cons_append, hbehind]
  obtain ⟨houtline, hrests⟩ := signature_unique hm hother.2 hrest htail hsignature
  refine ⟨?_, hrests⟩
  rw [← houtline, ← hsame]
  rfl

end Literals

section Types

variable {qualifiers : Qualifiers} {localPackage : String} {type : GoType}

/-- The texts of leaves are told apart, and a leaf's outline is its text. -/
theorem recognised_leaf (h : type.Legible qualifiers localPackage)
    (hleaf : type.opening = .predeclared) : type.Recognised qualifiers localPackage := by
  intro other hother rest tail hrest htail heq
  have hopening := openedKind?_spelling h hrest
  rw [heq, openedKind?_spelling hother htail, hleaf] at hopening
  have houtline {type : GoType} (hleaf : type.opening = .predeclared) :
      type.outline qualifiers localPackage =
        .predeclared (type.spelling qualifiers localPackage) := by
    cases type <;> first | rfl | cases hleaf
  have hchars {type : GoType} (h : type.Legible qualifiers localPackage)
      (hleaf : type.opening = .predeclared) : ∀ c ∈ (type.spelling qualifiers localPackage).toList,
        (isWordChar c || c == '.') = true := by
    obtain ⟨first, hfirst, more, htext, hmore⟩ := h.leaf hleaf
    intro c hc
    rw [htext] at hc
    rcases List.mem_append.1 hc with hc | hc
    · simp [hfirst.isWordChar c hc]
    · rcases hmore with rfl | ⟨name, hname, rfl⟩
      · cases hc
      · rcases List.mem_cons.1 hc with rfl | hc
        · simp
        · simp [hname.isWordChar c hc]
  have hstop {rest : List Char} (hrest : Stops rest) :
      ∀ c ∈ rest.head?, (isWordChar c || c == '.') = false := by
    intro c hc
    simp [hrest.head c hc]
  have hleaf' := Option.some.inj hopening
  obtain ⟨hsame, hrests⟩ :=
    run_unique (hchars h hleaf) (hchars hother hleaf') (hstop hrest) (hstop htail) heq
  exact ⟨by rw [houtline hleaf, houtline hleaf', String.toList_inj.1 hsame], hrests⟩

/-- What stands between the brackets of an array type. -/
def lengthText : Option Int64 → List Char
  | none => []
  | some len => (Decimal.signedNumeral len.toInt).toList

theorem toList_spelling_array (len : Option Int64) (elem : GoType) (rest : List Char) :
    ((GoType.array len elem).spelling qualifiers localPackage).toList ++ rest =
      '[' :: (lengthText len ++ ']' ::
        ((elem.spelling qualifiers localPackage).toList ++ rest)) := by
  cases len <;> simp [GoType.spelling, lengthText]

theorem lengthText_unique {len other : Option Int64} {rest tail : List Char}
    (heq : lengthText len ++ ']' :: rest = lengthText other ++ ']' :: tail) :
    len = other ∧ rest = tail := by
  have hchars (len : Option Int64) : ∀ c ∈ lengthText len, Decimal.isNumeralChar c := by
    cases len with
    | none => exact fun c hc => nomatch hc
    | some len => exact fun c hc => Decimal.isNumeralChar_of_mem_signedNumeral hc
  have hbracket (rest : List Char) :
      ∀ c ∈ (']' :: rest).head?, Decimal.isNumeralChar c = false := by
    rintro c ⟨⟩
    rfl
  obtain ⟨htext, hbehind⟩ :=
    run_unique (hchars len) (hchars other) (hbracket rest) (hbracket tail) heq
  refine ⟨?_, (List.cons.inj hbehind).2⟩
  cases len <;> cases other
  · rfl
  · exact absurd htext.symm (Decimal.signedNumeral_ne_nil _)
  · exact absurd htext (Decimal.signedNumeral_ne_nil _)
  · exact congrArg some (Int64.toInt_inj.1 (Decimal.signedNumeral_injective htext))

/-- The direction of a channel type shows. -/
theorem chan_unique {dir other : ChanDir} {elem otherElem : String} {rest tail : List Char}
    (heq : (spelledChan dir elem).toList ++ rest = (spelledChan other otherElem).toList ++ tail) :
    dir = other ∧ elem.toList ++ rest = otherElem.toList ++ tail := by
  cases dir <;> cases other <;> simp [spelledChan] at heq
  all_goals exact ⟨rfl, heq⟩

theorem outline_func (m : Method) :
    (GoType.func m.params m.results m.variadic).outline qualifiers localPackage =
      .func (m.outline qualifiers localPackage).params (m.outline qualifiers localPackage).results
        (m.outline qualifiers localPackage).variadic := by
  simp only [GoType.outline, parameterOutlines_eq_map, optionOutline_eq_map, Method.outline]

theorem opening_eq {other : GoType} (h : type.Legible qualifiers localPackage)
    (hother : other.Legible qualifiers localPackage) {rest tail : List Char} (hrest : Stops rest)
    (htail : Stops tail) (heq : (type.spelling qualifiers localPackage).toList ++ rest =
      (other.spelling qualifiers localPackage).toList ++ tail) : type.opening = other.opening := by
  have hopened := openedKind?_spelling h hrest
  rw [heq, openedKind?_spelling hother htail] at hopened
  exact (Option.some.inj hopened).symm

/-- Legible types with one spelling have one outline, whatever stops the spellings. -/
theorem GoType.recognised (type : GoType) :
    type.Legible qualifiers localPackage → type.Recognised qualifiers localPackage := by
  -- The kinds agree by the openings, and what follows these is read from the left.
  induction type using GoType.induct with
  | named package name => exact fun h => recognised_leaf h rfl
  | predeclared name => exact fun h => recognised_leaf h rfl
  | pointer elem ih =>
      intro h other hother rest tail hrest htail heq
      have hopening := opening_eq h hother hrest htail heq
      cases h with
      | pointer helem =>
      cases hother with
      | pointer helem' =>
          simp only [spelling, String.toList_append, List.append_assoc,
            List.append_cancel_left_eq] at heq
          obtain ⟨houtline, hsame⟩ := ih helem _ helem' _ _ hrest htail heq
          exact ⟨congrArg GoType.pointer houtline, hsame⟩
      | _ => cases hopening
  | array len elem ih =>
      intro h other hother rest tail hrest htail heq
      have hopening := opening_eq h hother hrest htail heq
      cases h with
      | array helem =>
      cases hother with
      | array helem' =>
          rw [toList_spelling_array, toList_spelling_array] at heq
          obtain ⟨rfl, hbehind⟩ := lengthText_unique (List.cons.inj heq).2
          obtain ⟨houtline, hsame⟩ := ih helem _ helem' _ _ hrest htail hbehind
          exact ⟨congrArg (GoType.array len) houtline, hsame⟩
      | _ => cases hopening
  | map key value ihkey ihvalue =>
      intro h other hother rest tail hrest htail heq
      have hopening := opening_eq h hother hrest htail heq
      cases h with
      | map hkey hvalue =>
      cases hother with
      | map hkey' hvalue' =>
          simp only [spelling, String.toList_append, List.append_assoc,
            List.append_cancel_left_eq] at heq
          obtain ⟨houtline, hbehind⟩ :=
            ihkey hkey _ hkey' _ _ (.mark (by decide)) (.mark (by decide)) heq
          obtain ⟨houtline', hsame⟩ :=
            ihvalue hvalue _ hvalue' _ _ hrest htail (List.cons.inj hbehind).2
          exact ⟨by rw [outline, houtline, houtline', outline], hsame⟩
      | _ => cases hopening
  | chan dir elem ih =>
      intro h other hother rest tail hrest htail heq
      have hopening := opening_eq h hother hrest htail heq
      cases h with
      | chan helem =>
      cases hother with
      | chan helem' =>
          simp only [spelling] at heq
          obtain ⟨rfl, hbehind⟩ := chan_unique heq
          obtain ⟨houtline, hsame⟩ := ih helem _ helem' _ _ hrest htail hbehind
          exact ⟨congrArg (GoType.chan dir) houtline, hsame⟩
      | _ => cases hopening
  | func params results variadic ihparams ihresults ihvariadic =>
      intro h other hother rest tail hrest htail heq
      have hopening := opening_eq h hother hrest htail heq
      have hdeclared : ∀ p ∈ Method.declared ⟨"", params, results, variadic⟩,
          p.type.Legible qualifiers localPackage → p.type.Recognised qualifiers localPackage :=
        Method.forall_mem_declared.2 ⟨ihparams, ihresults, ihvariadic⟩
      cases h with
      | func hnames htypes =>
      cases hother with
      | @func params' results' variadic' hnames' htypes' =>
          simp only [spelling, String.toList_append, List.append_assoc,
            List.append_cancel_left_eq] at heq
          obtain ⟨houtline, hsame⟩ := signature_unique (m := ⟨"", params, results, variadic⟩)
            (n := ⟨"", params', results', variadic'⟩)
            (fun p hp => ⟨⟨hnames p hp, htypes p hp⟩, hdeclared p hp (htypes p hp)⟩)
            (fun p hp => ⟨hnames' p hp, htypes' p hp⟩) hrest htail heq
          refine ⟨?_, hsame⟩
          rw [outline_func ⟨"", params, results, variadic⟩,
            outline_func ⟨"", params', results', variadic'⟩, ← houtline]
      | _ => cases hopening
  | struct fields ih =>
      intro h other hother rest tail hrest htail heq
      have hopening := opening_eq h hother hrest htail heq
      cases h with
      | struct hnames htypes =>
      cases hother with
      | struct hnames' htypes' =>
          simp only [spelling, spelledFields_eq_map] at heq
          obtain ⟨houtline, hsame⟩ := literal_unique "struct"
            (fun f hf rest tail => by
              simpa only [String.toList_append, List.append_assoc] using
                name_ne_blank hf.1 _ tail)
            (fun f hf => ⟨⟨hnames f hf, htypes f hf⟩,
              readOff_field (hnames f hf) (ih f hf (htypes f hf))⟩)
            (fun f hf => ⟨hnames' f hf, htypes' f hf⟩) heq
          exact ⟨by simp only [outline, fieldOutlines_eq_map, houtline], hsame⟩
      | _ => cases hopening
  | interface methods ih =>
      intro h other hother rest tail hrest htail heq
      have hopening := opening_eq h hother hrest htail heq
      cases h with
      | interface hnames hparams htypes =>
      cases hother with
      | interface hnames' hparams' htypes' =>
          simp only [spelling, spelledMethods_eq_map] at heq
          obtain ⟨houtline, hsame⟩ := literal_unique "interface"
            (fun m hm rest tail => by
              simpa only [String.toList_append, List.append_assoc] using
                name_ne_blank hm.1 _ tail)
            (fun m hm => ⟨⟨hnames m hm, fun p hp => ⟨hparams m hm p hp, htypes m hm p hp⟩⟩,
              readOff_method (hnames m hm) fun p hp =>
                ⟨⟨hparams m hm p hp, htypes m hm p hp⟩, ih m hm p hp (htypes m hm p hp)⟩⟩)
            (fun m hm => ⟨hnames' m hm, fun p hp => ⟨hparams' m hm p hp, htypes' m hm p hp⟩⟩)
            heq
          exact ⟨by simp only [outline, methodOutlines_eq_map, houtline], hsame⟩
      | _ => cases hopening

end Types

/-- Spellings are uniquely readable.  Among legible types one spelling is that of one outline, and
among methods with legible parameters one signature belongs to one outline, the name of the method
apart, which the signature does not show. -/
theorem spelling_eq_iff_outline_eq (qualifiers : Qualifiers) (localPackage : String) :
    (∀ type other : GoType, type.Legible qualifiers localPackage →
      other.Legible qualifiers localPackage →
        (type.spelling qualifiers localPackage = other.spelling qualifiers localPackage ↔
          type.outline qualifiers localPackage = other.outline qualifiers localPackage)) ∧
    ∀ m n : Method, m.Legible qualifiers localPackage → n.Legible qualifiers localPackage →
      (m.signature qualifiers localPackage = n.signature qualifiers localPackage ↔
        { m.outline qualifiers localPackage with name := n.name } =
          n.outline qualifiers localPackage) := by
  constructor
  · intro type other htype hother
    constructor
    · intro heq
      exact (type.recognised htype other hother [] [] .nil .nil (by rw [heq])).1
    · intro houtline
      rw [← type.spelling_outline, houtline, other.spelling_outline]
  · intro m n hm hn
    constructor
    · intro heq
      have hrecognised : ∀ p ∈ m.declared, p.Legible qualifiers localPackage ∧
          p.type.Recognised qualifiers localPackage :=
        fun p hp => ⟨hm p hp, p.type.recognised (hm p hp).type⟩
      exact (signature_unique hrecognised hn .nil .nil (by rw [heq])).1
    · intro houtline
      rw [← m.signature_outline, ← n.signature_outline, ← houtline]
      rfl

/-- A function type that takes a context from the package at a path, a channel of channels and any
number of keys. -/
def contextSample (path : String) : GoType :=
  .func [⟨"ctx", .named (some path) "Context"⟩,
      ⟨"", .chan .both (.chan .recv (.predeclared "int"))⟩]
    [⟨"", .predeclared "error"⟩] (some ⟨"keys", .predeclared "string"⟩)

theorem spelling_eq_iff_outline_eq_of_contexts :
    (contextSample "context").Legible Qualifiers.none "" ∧
      (contextSample "go/context").Legible Qualifiers.none "" ∧
      (contextSample "context").spelling Qualifiers.none "" =
        (contextSample "go/context").spelling Qualifiers.none "" ∧
      (contextSample "context").outline Qualifiers.none "" =
        (contextSample "go/context").outline Qualifiers.none "" := by
  have hlegible (path : String) (hpath : IsIdentifier (Qualifiers.none.effective path)) :
      (contextSample path).Legible Qualifiers.none "" := by
    constructor <;>
      simp only [List.cons_append, List.nil_append, Option.toList_some, List.forall_mem_cons]
    · exact ⟨by decide, by decide, by decide, by decide, List.forall_mem_nil _⟩
    · refine ⟨.named (by decide) ?_, .chan (.chan (.predeclared (by decide))),
        .predeclared (by decide), .predeclared (by decide), List.forall_mem_nil _⟩
      rintro other ⟨⟩ -
      exact hpath
  have hfirst := hlegible "context" (by decide)
  have hsecond := hlegible "go/context" (by decide)
  have hspelling : (contextSample "context").spelling Qualifiers.none "" =
      (contextSample "go/context").spelling Qualifiers.none "" := by decide
  exact ⟨hfirst, hsecond, hspelling,
    ((spelling_eq_iff_outline_eq Qualifiers.none "").1 _ _ hfirst hsecond).1 hspelling⟩

end InterfaceProbe
