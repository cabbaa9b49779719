/-
# What spellings are read back as

The spelling of a legible type is read back as `GoType.asRead` says, by induction on
the type.  What stands behind the keyword of a bidirectional channel goes along in
the induction: the channel of a channel that receives is read where the keyword
stands before the text of that one's element.
-/

import InterfaceProbe.Proofs.Model.SignatureReadBack

namespace InterfaceProbe

section Types

open LexemeReader

variable {qualifiers : Qualifiers} {localPackage : String} {rest : List Char}

/-- The numeral of a number is cut into one word. -/
theorem lexemes_numeral (n : Nat) (hrest : ∀ c ∈ rest.head?, isWordChar c = false) :
    lexemes ((Decimal.numeral n).toList ++ rest) = .word (Decimal.numeral n) :: lexemes rest :=
  lexemes_word (Decimal.numeral_ne_nil n)
    (fun c hc => by simp [isWordChar, Char.isAlphanum, Decimal.isDigit_of_mem_numeral hc]) hrest

theorem ofNumeral_numeral (n : Nat) : ofNumeral (Decimal.numeral n) = n := by
  have hvalue : ∀ digit < 10, (Decimal.digitChar digit).toNat - 48 = digit := by decide
  have hdigits : (Decimal.digitsOf n).map ((fun c => c.toNat - 48) ∘ Decimal.digitChar) =
      Decimal.digitsOf n :=
    (List.map_congr_left fun digit hdigit => hvalue digit (Decimal.digit_lt_ten hdigit)).trans
      (List.map_id _)
  rw [ofNumeral, Decimal.numeral, String.toList_ofList, List.map_map, hdigits,
    Decimal.ofDigits_digitsOf]

theorem length_spelled (len : Option Int64) (rest : List Char) :
    LexemeReader.length (lexemes (lengthText len ++ ']' :: rest)) = some (len, lexemes rest) := by
  have hbracket : lexemes (']' :: rest) = .mark ']' :: lexemes rest := rfl
  have hhead : ∀ c ∈ (']' :: rest).head?, isWordChar c = false := by
    rintro _ ⟨⟩
    rfl
  cases len with
  | none => rfl
  | some len =>
      rw [lengthText, Decimal.toList_signedNumeral]
      split
      · next hneg =>
          have hminus (more : List Char) : lexemes ('-' :: more) = .mark '-' :: lexemes more := rfl
          have hsame : -(len.toInt.natAbs : Int) = len.toInt := by omega
          rw [List.cons_append, hminus, lexemes_numeral _ hhead, hbracket]
          simp only [LexemeReader.length, ofNumeral_numeral, hsame, Int64.ofInt_toInt]
      · next hneg =>
          have hsame : (len.toInt.natAbs : Int) = len.toInt := by omega
          rw [lexemes_numeral _ hhead, hbracket]
          simp only [LexemeReader.length, ofNumeral_numeral, hsame, Int64.ofInt_toInt]

variable (qualifiers localPackage) in
/-- Types that are read back by a reader whose bound is the length of their spelling or more. -/
def GoType.ReadBack (type : GoType) : Prop :=
  ∀ bound, (type.spelling qualifiers localPackage).length ≤ bound →
    type.ReadBy qualifiers localPackage (typeWithin bound)

theorem readBack_leaf {type : GoType} (h : type.Legible qualifiers localPackage)
    (hleaf : type.opening = .predeclared) : type.ReadBack qualifiers localPackage := by
  intro bound hbound rest hrest
  have hread : type.asRead qualifiers localPackage =
      .predeclared (type.spelling qualifiers localPackage) := by
    cases type <;> first | rfl | cases hleaf
  have hpos : 0 < (type.spelling qualifiers localPackage).length := by
    obtain ⟨first, hfirst, more, htext, -⟩ := h.leaf hleaf
    rw [← String.length_toList, htext, List.length_append]
    exact Nat.add_pos_left (List.length_pos_iff.2 hfirst.ne_empty) _
  obtain ⟨bound, rfl⟩ : ∃ n, bound = n + 1 := ⟨bound - 1, by omega⟩
  obtain ⟨first, hfirst, ⟨htext, heq⟩ | ⟨name, htext, heq⟩⟩ := h.lexemes_leaf hleaf hrest
  · have hhead := hrest.head_lexemes
    rw [heq, hread, htext, typeWithin_word, afterWord, kindOfWord_of_identifier hfirst]
    simp only
    cases hmore : lexemes rest with
    | nil => simp [nameType, hfirst.not_keyword]
    | cons element more =>
        rw [hmore] at hhead
        have helement := hhead element rfl
        simp only [List.mem_cons, List.not_mem_nil, or_false] at helement
        rcases helement with rfl | rfl | rfl | rfl | rfl <;> simp [nameType, hfirst.not_keyword]
  · rw [heq, hread, htext, typeWithin_word, afterWord, kindOfWord_of_identifier hfirst]
    rfl

theorem kindOfWord_chan : kindOfWord "chan" = .chan := by decide

theorem readBack_chan_recv {inner : GoType}
    (hread : (GoType.chan .both inner).ReadBack qualifiers localPackage) :
    (GoType.chan .both (.chan .recv inner)).ReadBack qualifiers localPackage := by
  intro bound hbound rest hrest
  simp only [GoType.spelling, spelledChan, String.length_append, String.toList_append,
    List.append_assoc] at hbound ⊢
  have hfive : "chan ".length = 5 := rfl
  have hseven : "<-chan ".length = 7 := rfl
  obtain ⟨bound, rfl⟩ : ∃ n, bound = n + 1 := ⟨bound - 1, by omega⟩
  have hkeywords (more : List Char) : lexemes ("chan ".toList ++ ("<-chan ".toList ++ more)) =
      .word "chan" :: .arrow :: lexemes ("chan ".toList ++ more) := rfl
  have hlength : ((GoType.chan .both inner).spelling qualifiers localPackage).length ≤ bound := by
    simp only [GoType.spelling, spelledChan, String.length_append]
    omega
  have hsome := hread bound hlength rest hrest
  simp only [GoType.spelling, spelledChan, String.toList_append, List.append_assoc] at hsome
  rw [hkeywords, typeWithin_word, afterWord, kindOfWord_chan]
  show chanType (typeWithin bound) _ = _
  rw [chanType, hsome]
  rfl

/-- What follows the keyword of a bidirectional channel is its element, unless that begins with an
arrow. -/
theorem readBack_chan_of_ne {elem : GoType} (h : elem.Legible qualifiers localPackage)
    (hread : elem.ReadBack qualifiers localPackage) (hne : ∀ inner, elem ≠ .chan .recv inner) :
    (GoType.chan .both elem).ReadBack qualifiers localPackage := by
  intro bound hbound rest hrest
  simp only [GoType.spelling, spelledChan, String.length_append, String.toList_append,
    List.append_assoc] at hbound ⊢
  have hfive : "chan ".length = 5 := rfl
  have hkeyword (more : List Char) : lexemes ("chan ".toList ++ more) =
      .word "chan" :: lexemes more := rfl
  obtain ⟨bound, rfl⟩ : ∃ n, bound = n + 1 := ⟨bound - 1, by omega⟩
  have hsome := hread bound (by omega) rest hrest
  rw [hkeyword, GoType.asRead, GoType.behindChan_asRead hne, typeWithin_word, afterWord,
    kindOfWord_chan]
  show chanType (typeWithin bound) _ = _
  obtain ⟨element, more, heq, ⟨-, inner, hrecv⟩ | rfl | rfl | ⟨word, rfl⟩⟩ :=
    h.exists_lexeme hrest
  · exact absurd hrecv (hne inner)
  all_goals
    rw [heq] at hsome ⊢
    rw [chanType, hsome]
    · rfl
    · simp

theorem readBack_pointer {elem : GoType} (hread : elem.ReadBack qualifiers localPackage) :
    (GoType.pointer elem).ReadBack qualifiers localPackage := by
  intro bound hbound rest hrest
  simp only [GoType.spelling, String.length_append, String.toList_append,
    List.append_assoc] at hbound ⊢
  have hone : "*".length = 1 := rfl
  obtain ⟨bound, rfl⟩ : ∃ n, bound = n + 1 := ⟨bound - 1, by omega⟩
  have hmark (more : List Char) : lexemes ("*".toList ++ more) = .mark '*' :: lexemes more := rfl
  rw [hmark, typeWithin_star, hread bound (by omega) rest hrest]
  rfl

theorem readBack_array {len : Option Int64} {elem : GoType}
    (hread : elem.ReadBack qualifiers localPackage) :
    (GoType.array len elem).ReadBack qualifiers localPackage := by
  intro bound hbound rest hrest
  have htext : ((GoType.array len elem).spelling qualifiers localPackage).toList ++ [] = _ :=
    toList_spelling_array len elem []
  have hspelled := congrArg List.length htext
  simp only [List.append_nil, List.length_cons, List.length_append,
    String.length_toList] at hspelled
  obtain ⟨bound, rfl⟩ : ∃ n, bound = n + 1 := ⟨bound - 1, by omega⟩
  have hmark (more : List Char) : lexemes ('[' :: more) = .mark '[' :: lexemes more := rfl
  rw [toList_spelling_array, hmark, typeWithin_bracket, length_spelled]
  simp [hread bound (by omega) rest hrest, GoType.asRead]

theorem readBack_map {key value : GoType} (hkey : key.ReadBack qualifiers localPackage)
    (hvalue : value.ReadBack qualifiers localPackage) :
    (GoType.map key value).ReadBack qualifiers localPackage := by
  intro bound hbound rest hrest
  simp only [GoType.spelling, String.length_append, String.toList_append,
    List.append_assoc] at hbound ⊢
  have hfour : "map[".length = 4 := rfl
  obtain ⟨bound, rfl⟩ : ∃ n, bound = n + 1 := ⟨bound - 1, by omega⟩
  have hopening (more : List Char) : lexemes ("map[".toList ++ more) =
      .word "map" :: .mark '[' :: lexemes more := rfl
  have hclosing (more : List Char) : lexemes ("]".toList ++ more) = .mark ']' :: lexemes more := rfl
  have hsome := hkey bound (by omega) ("]".toList ++
    ((value.spelling qualifiers localPackage).toList ++ rest)) (.mark (by decide))
  rw [hopening, typeWithin_word, afterWord, show kindOfWord "map" = .map by decide]
  show mapType (typeWithin bound) _ = _
  rw [mapType, hsome, hclosing]
  simp [hvalue bound (by omega) rest hrest, GoType.asRead]

theorem readBack_recv {elem : GoType} (hread : elem.ReadBack qualifiers localPackage) :
    (GoType.chan .recv elem).ReadBack qualifiers localPackage := by
  intro bound hbound rest hrest
  simp only [GoType.spelling, spelledChan, String.length_append, String.toList_append,
    List.append_assoc] at hbound ⊢
  have hseven : "<-chan ".length = 7 := rfl
  obtain ⟨bound, rfl⟩ : ∃ n, bound = n + 1 := ⟨bound - 1, by omega⟩
  have hopening (more : List Char) : lexemes ("<-chan ".toList ++ more) =
      .arrow :: .word "chan" :: lexemes more := rfl
  rw [hopening, typeWithin_arrow, hread bound (by omega) rest hrest]
  rfl

theorem readBack_send {elem : GoType} (hread : elem.ReadBack qualifiers localPackage) :
    (GoType.chan .send elem).ReadBack qualifiers localPackage := by
  intro bound hbound rest hrest
  simp only [GoType.spelling, spelledChan, String.length_append, String.toList_append,
    List.append_assoc] at hbound ⊢
  have hseven : "chan<- ".length = 7 := rfl
  obtain ⟨bound, rfl⟩ : ∃ n, bound = n + 1 := ⟨bound - 1, by omega⟩
  have hopening (more : List Char) : lexemes ("chan<- ".toList ++ more) =
      .word "chan" :: .arrow :: lexemes more := rfl
  rw [hopening, typeWithin_word, afterWord, kindOfWord_chan]
  show chanType (typeWithin bound) _ = _
  rw [chanType, hread bound (by omega) rest hrest]
  rfl

variable (qualifiers localPackage) in
theorem length_le_listed {listed : List (Bool × Parameter)} {a : Bool × Parameter}
    (ha : a ∈ listed) : (a.2.type.spelling qualifiers localPackage).length ≤
      (separated ", " (listed.map (spelledArgument qualifiers localPackage))).length := by
  have hargument : (a.2.type.spelling qualifiers localPackage).length ≤
      (spelledArgument qualifiers localPackage a).length := by
    unfold spelledArgument spelledVariadic spelledParameter
    split <;> split <;> simp only [String.length_append] <;> omega
  exact Nat.le_trans hargument (length_le_separated ", " (List.mem_map_of_mem ha))

/-- No type of a signature is longer than the signature. -/
theorem length_le_signature {m : Method} {p : Parameter} (hp : p ∈ m.declared) :
    (p.type.spelling qualifiers localPackage).length ≤
      (m.signature qualifiers localPackage).length := by
  rw [Method.signature, spelledSignature_eq]
  simp only [String.length_append]
  rcases List.mem_append.1 hp with hp | hp
  · rcases List.mem_append.1 hp with hp | hp
    · have hmem : (false, p) ∈ InterfaceProbe.arguments m.params m.variadic :=
        List.mem_append_left _ (List.mem_map_of_mem hp)
      have hlisted := length_le_listed qualifiers localPackage hmem
      simp only at hlisted
      omega
    · rcases spelledResults_cases m.results with hnone | ⟨type, hone⟩ | hlisted
      · rw [hnone] at hp
        cases hp
      · rw [hone, List.mem_singleton] at hp
        rw [hone, hp]
        simp [spelledResults]
        omega
      · have hmem : (false, p) ∈ InterfaceProbe.arguments m.results none :=
          List.mem_append_left _ (List.mem_map_of_mem hp)
        have hlength := length_le_listed qualifiers localPackage hmem
        rw [hlisted]
        simp only [String.length_append] at hlength ⊢
        omega
  · have hmem : (true, p) ∈ InterfaceProbe.arguments m.params m.variadic :=
      List.mem_append_right _ (List.mem_map_of_mem hp)
    have hlisted := length_le_listed qualifiers localPackage hmem
    simp only at hlisted
    omega

theorem asRead_func (m : Method) :
    (GoType.func m.params m.results m.variadic).asRead qualifiers localPackage =
      .func (m.asRead qualifiers localPackage).params (m.asRead qualifiers localPackage).results
        (m.asRead qualifiers localPackage).variadic := by
  simp only [GoType.asRead, parametersAsRead_eq_map, optionAsRead_eq_map, Method.asRead]

theorem readBack_func {m : Method} (hm : ∀ p ∈ m.declared, p.Legible qualifiers localPackage ∧
      p.type.ReadBack qualifiers localPackage) :
    (GoType.func m.params m.results m.variadic).ReadBack qualifiers localPackage := by
  intro bound hbound rest hrest
  have hspelled : (GoType.func m.params m.results m.variadic).spelling qualifiers localPackage =
      "func" ++ m.signature qualifiers localPackage := rfl
  rw [hspelled, String.length_append] at hbound
  have hfour : "func".length = 4 := rfl
  obtain ⟨bound, rfl⟩ : ∃ n, bound = n + 1 := ⟨bound - 1, by omega⟩
  have hkeyword : lexemes ("func".toList ++
      ((m.signature qualifiers localPackage).toList ++ rest)) =
        .word "func" :: lexemes ((m.signature qualifiers localPackage).toList ++ rest) := by
    rw [Method.signature, spelledSignature_eq]
    simp only [String.toList_append, List.append_assoc]
    rfl
  have htypes : ∀ p ∈ m.declared, p.Legible qualifiers localPackage ∧
      p.type.ReadBy qualifiers localPackage (typeWithin bound) := by
    intro p hp
    have hlength : (p.type.spelling qualifiers localPackage).length ≤ _ := length_le_signature hp
    exact ⟨(hm p hp).1, (hm p hp).2 bound (by omega)⟩
  have hread := signature_spelled htypes (show _ ≤ bound by omega) hrest
  rw [hspelled, String.toList_append, List.append_assoc, hkeyword, typeWithin_word, afterWord,
    show kindOfWord "func" = .func by decide]
  simp only [hread]
  rw [asRead_func]
  rfl

theorem length_spelledLiteral (keyword : String) (members : List String) :
    keyword.length + 2 ≤ (spelledLiteral keyword members).length := by
  have hbraces : "\x7b\x7d".length = 2 := rfl
  have htwo : "\x7b ".length = 2 := rfl
  cases members <;> simp only [spelledLiteral, String.length_append] <;> omega

/-- Any member of a literal is shorter than the literal. -/
theorem length_lt_literal (keyword : String) {members : List String} {member : String}
    (h : member ∈ members) : member.length < (spelledLiteral keyword members).length := by
  cases members with
  | nil => cases h
  | cons head rest =>
      have hlength := length_le_separated "; " h
      have htwo : "\x7b ".length = 2 := rfl
      simp only [spelledLiteral, String.length_append]
      omega

theorem readBack_struct {fields : List Field} (h : ∀ f ∈ fields, IsIdentifier f.name ∧
      f.type.ReadBack qualifiers localPackage) :
    (GoType.struct fields).ReadBack qualifiers localPackage := by
  intro bound hbound rest hrest
  simp only [GoType.spelling, spelledFields_eq_map] at hbound ⊢
  have hlength := length_spelledLiteral "struct" (fields.map fun f =>
    f.name ++ " " ++ f.type.spelling qualifiers localPackage)
  obtain ⟨bound, rfl⟩ : ∃ n, bound = n + 1 := ⟨bound - 1, by omega⟩
  have hfields : ∀ f ∈ fields, f.type.ReadBy qualifiers localPackage (typeWithin bound) := by
    intro f hf
    have hshort := length_lt_literal "struct" (List.mem_map_of_mem (f := fun f =>
      f.name ++ " " ++ f.type.spelling qualifiers localPackage) hf)
    simp only [String.length_append] at hshort
    exact (h f hf).2 bound (by omega)
  obtain ⟨inside, heq, hread⟩ := braced_spelled "struct" (fun _ => rfl) fields
    (fun f hf rest hrest => field_spelled (h f hf).1 (hfields f hf) hrest) (by decide) hbound rest
  rw [heq, typeWithin_word, afterWord, show kindOfWord "struct" = .struct by decide]
  simp [hread, GoType.asRead]

theorem readBack_interface {methods : List Method} (h : ∀ m ∈ methods, IsIdentifier m.name ∧
      ∀ p ∈ m.declared, p.Legible qualifiers localPackage ∧
        p.type.ReadBack qualifiers localPackage) :
    (GoType.interface methods).ReadBack qualifiers localPackage := by
  intro bound hbound rest hrest
  simp only [GoType.spelling, spelledMethods_eq_map] at hbound ⊢
  have hlength := length_spelledLiteral "interface" (methods.map fun m =>
    m.name ++ m.signature qualifiers localPackage)
  obtain ⟨bound, rfl⟩ : ∃ n, bound = n + 1 := ⟨bound - 1, by omega⟩
  have hmethods : ∀ m ∈ methods, (m.name ++ m.signature qualifiers localPackage).length ≤ bound ∧
      ∀ p ∈ m.declared, p.Legible qualifiers localPackage ∧
        p.type.ReadBy qualifiers localPackage (typeWithin bound) := by
    intro m hm
    have hshort := length_lt_literal "interface" (List.mem_map_of_mem (f := fun m =>
      m.name ++ m.signature qualifiers localPackage) hm)
    refine ⟨by omega, fun p hp => ⟨((h m hm).2 p hp).1, ((h m hm).2 p hp).2 bound ?_⟩⟩
    have hsignature : (p.type.spelling qualifiers localPackage).length ≤ _ :=
      length_le_signature hp
    simp only [String.length_append] at hshort
    omega
  obtain ⟨inside, heq, hread⟩ := braced_spelled "interface" (fun _ => rfl) methods
    (fun m hm rest hrest => method_spelled (h m hm).1 (hmethods m hm).2 (hmethods m hm).1 hrest)
    (by decide) hbound rest
  rw [heq, typeWithin_word, afterWord, show kindOfWord "interface" = .interface by decide]
  simp [hread, GoType.asRead]

/-- The spelling of a legible type is read back, and so it is behind the keyword of a channel. -/
theorem GoType.readBack (type : GoType) : type.Legible qualifiers localPackage →
    type.ReadBack qualifiers localPackage ∧
      (GoType.chan .both type).ReadBack qualifiers localPackage := by
  have both {type : GoType} (h : type.Legible qualifiers localPackage)
      (hread : type.ReadBack qualifiers localPackage) (hne : ∀ inner, type ≠ .chan .recv inner) :
      type.ReadBack qualifiers localPackage ∧
        (GoType.chan .both type).ReadBack qualifiers localPackage :=
    ⟨hread, readBack_chan_of_ne h hread hne⟩
  induction type using GoType.induct with
  | named package name => exact fun h => both h (readBack_leaf h rfl) nofun
  | predeclared name => exact fun h => both h (readBack_leaf h rfl) nofun
  | pointer elem ih =>
      intro h
      have hparts := h
      cases hparts with
      | pointer helem => exact both h (readBack_pointer (ih helem).1) nofun
  | array len elem ih =>
      intro h
      have hparts := h
      cases hparts with
      | array helem => exact both h (readBack_array (ih helem).1) nofun
  | map key value ihkey ihvalue =>
      intro h
      have hparts := h
      cases hparts with
      | map hkey hvalue => exact both h (readBack_map (ihkey hkey).1 (ihvalue hvalue).1) nofun
  | chan dir elem ih =>
      intro h
      have hparts := h
      cases hparts with
      | chan helem =>
      obtain ⟨hread, hchan⟩ := ih helem
      cases dir with
      | both => exact both h hchan nofun
      | recv => exact ⟨readBack_recv hread, readBack_chan_recv hchan⟩
      | send => exact both h (readBack_send hread) nofun
  | func params results variadic ihparams ihresults ihvariadic =>
      intro h
      have hdeclared : ∀ p ∈ Method.declared ⟨"", params, results, variadic⟩,
          p.type.Legible qualifiers localPackage → p.type.ReadBack qualifiers localPackage ∧
            (GoType.chan .both p.type).ReadBack qualifiers localPackage :=
        Method.forall_mem_declared.2 ⟨ihparams, ihresults, ihvariadic⟩
      have hparts := h
      cases hparts with
      | func hnames htypes =>
          exact both h (readBack_func (m := ⟨"", params, results, variadic⟩) fun p hp =>
            ⟨⟨hnames p hp, htypes p hp⟩, (hdeclared p hp (htypes p hp)).1⟩) nofun
  | struct fields ih =>
      intro h
      have hparts := h
      cases hparts with
      | struct hnames htypes =>
          exact both h (readBack_struct fun f hf =>
            ⟨hnames f hf, (ih f hf (htypes f hf)).1⟩) nofun
  | interface methods ih =>
      intro h
      have hparts := h
      cases hparts with
      | interface hnames hparams htypes =>
          exact both h (readBack_interface fun m hm => ⟨hnames m hm, fun p hp =>
            ⟨⟨hparams m hm p hp, htypes m hm p hp⟩, (ih m hm p hp (htypes m hm p hp)).1⟩⟩) nofun

end Types

/-- The spelling of a legible type is read back as the type with its arrows where they are read.
That is the outline of the type, with every channel in its direction, exactly if no bidirectional
channel in it has a channel that only receives for its element.  Among such types, two that have
their spellings cut into the same elements have one outline. -/
theorem GoType.arrows_read_back {type : GoType} {qualifiers : Qualifiers} {localPackage : String}
    (h : type.Legible qualifiers localPackage) :
    readType? (type.spelling qualifiers localPackage) =
      some (type.asRead qualifiers localPackage) ∧
    (readType? (type.spelling qualifiers localPackage) =
      some (type.outline qualifiers localPackage) ↔ type.ArrowsApart) ∧
    ∀ (other : GoType) (names : Qualifiers) (site : String), other.Legible names site →
      type.ArrowsApart → other.ArrowsApart →
      lexemes (type.spelling qualifiers localPackage).toList =
        lexemes (other.spelling names site).toList →
      type.outline qualifiers localPackage = other.outline names site := by
  have hread {type : GoType} {qualifiers : Qualifiers} {localPackage : String}
      (h : type.Legible qualifiers localPackage) {bound : Nat}
      (hbound : (type.spelling qualifiers localPackage).length ≤ bound) :
      LexemeReader.typeWithin bound (lexemes (type.spelling qualifiers localPackage).toList) =
        some (type.asRead qualifiers localPackage, []) := by
    have hsome := (type.readBack h).1 bound hbound [] .nil
    rwa [List.append_nil] at hsome
  have hwhole : readType? (type.spelling qualifiers localPackage) =
      some (type.asRead qualifiers localPackage) := by
    rw [readType?, hread h (Nat.le_refl _)]
  refine ⟨hwhole, ?_, fun other names site hother hapart hapart' heq => ?_⟩
  · rw [hwhole, Option.some_inj]
    exact ⟨fun heq elem hin => hin.asRead_ne_outline heq, fun hapart => hapart.asRead_eq_outline⟩
  · have hsame := hread h (Nat.le_max_left _ (other.spelling names site).length)
    rw [heq, hread hother (Nat.le_max_right _ _)] at hsame
    rw [← hapart.asRead_eq_outline, ← hapart'.asRead_eq_outline]
    exact (Prod.mk.inj (Option.some.inj hsame)).1.symm

/-- A function type that takes one channel of channels and returns another one. -/
def relaySample (path : String) : GoType :=
  .func [⟨"in", .chan .recv (.chan .both (.named (some path) "Item"))⟩]
    [⟨"", .chan .send (.chan .recv (.named (some path) "Item"))⟩] none

theorem arrows_read_back_of_relays :
    (relaySample "items").Legible Qualifiers.none "" ∧
      (relaySample "go/items").Legible Qualifiers.none "" ∧
      (relaySample "items").ArrowsApart ∧ (relaySample "go/items").ArrowsApart ∧
      readType? ((relaySample "items").spelling Qualifiers.none "") =
        some ((relaySample "items").outline Qualifiers.none "") ∧
      (relaySample "items").outline Qualifiers.none "" =
        (relaySample "go/items").outline Qualifiers.none "" := by
  have hlegible (path : String) (hpath : IsIdentifier (Qualifiers.none.effective path)) :
      (relaySample path).Legible Qualifiers.none "" := by
    have hitem : (GoType.named (some path) "Item").Legible Qualifiers.none "" := by
      refine .named (by decide) ?_
      rintro other ⟨⟩ -
      exact hpath
    constructor <;>
      simp only [List.cons_append, List.nil_append, Option.toList_none, List.forall_mem_cons]
    · exact ⟨by decide, by decide, List.forall_mem_nil _⟩
    · exact ⟨.chan (.chan hitem), .chan (.chan hitem), List.forall_mem_nil _⟩
  have hfirst := hlegible "items" (by decide)
  have hsecond := hlegible "go/items" (by decide)
  have hapart (path : String) : (relaySample path).ArrowsApart := by
    intro elem hin
    have hne : (relaySample path).asRead Qualifiers.none "" ≠
        (relaySample path).outline Qualifiers.none "" := hin.asRead_ne_outline
    exact hne rfl
  obtain ⟨-, hread, hsame⟩ := GoType.arrows_read_back hfirst
  have hspelling : (relaySample "items").spelling Qualifiers.none "" =
      (relaySample "go/items").spelling Qualifiers.none "" := by decide
  exact ⟨hfirst, hsecond, hapart _, hapart _, hread.2 (hapart _),
    hsame _ Qualifiers.none "" hsecond (hapart _) (hapart _) (by rw [hspelling])⟩

/-- A bidirectional channel of channels that only receive goes by the elements of a channel that
only sends bidirectional ones, with both of its directions read amiss. -/
theorem arrow_taken_by_outer_channel :
    let received : GoType := .chan .both (.chan .recv (.predeclared "int"))
    let sent : GoType := .chan .send (.chan .both (.predeclared "int"))
    received.Legible Qualifiers.none "" ∧ sent.Legible Qualifiers.none "" ∧
      received.spelling Qualifiers.none "" = "chan <-chan int" ∧
      lexemes (received.spelling Qualifiers.none "").toList =
        lexemes (sent.spelling Qualifiers.none "").toList ∧
      readType? (received.spelling Qualifiers.none "") = some sent ∧ received ≠ sent := by
  refine ⟨.chan (.chan (.predeclared (by decide))), .chan (.chan (.predeclared (by decide))),
    by decide, by decide, by rfl, nofun⟩

end InterfaceProbe
