/-
# Signatures read back

Spellings are cut into their lexical elements and read with a rest behind them that
stops a type (`Stops`).  If the types of a signature are read, then so are its
arguments, its lists and the whole signature, and so are literals whose members are
read.  Each reader leaves exactly the elements of the rest.
-/

import InterfaceProbe.Proofs.Model.AsRead
import InterfaceProbe.Proofs.Model.TypeReading
import InterfaceProbe.Proofs.Model.UniqueReading

namespace InterfaceProbe

section Elements

variable {qualifiers : Qualifiers} {localPackage : String} {type : GoType} {rest : List Char}

theorem Stops.head_word (h : Stops rest) : ∀ c ∈ rest.head?, isWordChar c = false :=
  fun c hc => (h.head c hc).1

/-- What may come behind a type goes on with one of a few marks. -/
theorem Stops.head_lexemes (h : Stops rest) :
    ∀ element ∈ (lexemes rest).head?, element ∈
      [Lexeme.mark ',', .mark ')', .mark ']', .mark ';', .mark '\x7d'] := by
  cases h with
  | nil => exact fun _ helement => nomatch helement
  | @mark c rest hc =>
      simp only [List.mem_cons, List.not_mem_nil, or_false] at hc
      rcases hc with rfl | rfl | rfl | rfl <;> rintro _ ⟨⟩ <;> decide
  | brace =>
      rintro _ ⟨⟩
      decide

/-- A leaf is cut into one word, or into two with a dot between them. -/
theorem GoType.Legible.lexemes_leaf (h : type.Legible qualifiers localPackage)
    (hleaf : type.opening = .predeclared) (hrest : Stops rest) :
    ∃ first : String, IsIdentifier first ∧
      ((type.spelling qualifiers localPackage = first ∧
          lexemes ((type.spelling qualifiers localPackage).toList ++ rest) =
            .word first :: lexemes rest) ∨
        ∃ name : String, type.spelling qualifiers localPackage = first ++ "." ++ name ∧
          lexemes ((type.spelling qualifiers localPackage).toList ++ rest) =
            .word first :: .mark '.' :: .word name :: lexemes rest) := by
  obtain ⟨first, hfirst, more, htext, hmore⟩ := h.leaf hleaf
  refine ⟨first, hfirst, ?_⟩
  rcases hmore with rfl | ⟨name, hname, rfl⟩
  · rw [List.append_nil] at htext
    exact Or.inl ⟨String.toList_inj.1 htext, by rw [htext, hfirst.lexemes hrest.head_word]⟩
  · refine Or.inr ⟨name, String.toList_inj.1 (by rw [htext]; simp), ?_⟩
    have hdot : ∀ c ∈ (name.toList ++ rest).head?, c ≠ '.' := by
      obtain ⟨c, tail, hcons, hc⟩ := hname.start
      rw [hcons]
      rintro _ ⟨⟩ rfl
      exact absurd hc (by decide)
    rw [htext, List.append_assoc, List.cons_append, hfirst.lexemes (by rintro _ ⟨⟩; rfl),
      lexemes_dot hdot, hname.lexemes hrest.head_word]

/-- A spelling begins with a word, an asterisk or a bracket, or with an arrow if it is that of a
channel that only receives. -/
theorem GoType.Legible.exists_lexeme (h : type.Legible qualifiers localPackage)
    (hrest : Stops rest) : ∃ element more,
      lexemes ((type.spelling qualifiers localPackage).toList ++ rest) = element :: more ∧
        ((element = .arrow ∧ ∃ elem, type = .chan .recv elem) ∨ element = .mark '*' ∨
          element = .mark '[' ∨ ∃ word, element = .word word) := by
  by_cases hleaf : type.opening = .predeclared
  · obtain ⟨first, -, ⟨-, heq⟩ | ⟨name, -, heq⟩⟩ := h.lexemes_leaf hleaf hrest
    · exact ⟨_, _, heq, .inr (.inr (.inr ⟨_, rfl⟩))⟩
    · exact ⟨_, _, heq, .inr (.inr (.inr ⟨_, rfl⟩))⟩
  · cases type with
    | named | predeclared => exact absurd rfl hleaf
    | pointer elem =>
        simp only [spelling, String.toList_append, List.append_assoc]
        exact ⟨_, _, rfl, .inr (.inl rfl)⟩
    | array len elem =>
        rw [toList_spelling_array]
        exact ⟨_, _, rfl, .inr (.inr (.inl rfl))⟩
    | map key value =>
        simp only [spelling, String.toList_append, List.append_assoc]
        exact ⟨_, _, rfl, .inr (.inr (.inr ⟨"map", rfl⟩))⟩
    | chan dir elem =>
        cases dir <;> simp only [spelling, spelledChan, String.toList_append, List.append_assoc]
        · exact ⟨_, _, rfl, .inr (.inr (.inr ⟨"chan", rfl⟩))⟩
        · exact ⟨_, _, rfl, .inl ⟨rfl, elem, rfl⟩⟩
        · exact ⟨_, _, rfl, .inr (.inr (.inr ⟨"chan", rfl⟩))⟩
    | func params results variadic =>
        simp only [spelling, spelledSignature_eq, String.toList_append, List.append_assoc]
        exact ⟨_, _, rfl, .inr (.inr (.inr ⟨"func", rfl⟩))⟩
    | struct fields =>
        obtain ⟨tail, htail⟩ := exists_toList_spelledLiteral "struct"
          (spelledFields qualifiers localPackage fields)
        rw [spelling, htail, List.append_assoc]
        exact ⟨_, _, rfl, .inr (.inr (.inr ⟨"struct", rfl⟩))⟩
    | interface methods =>
        obtain ⟨tail, htail⟩ := exists_toList_spelledLiteral "interface"
          (spelledMethods qualifiers localPackage methods)
        rw [spelling, htail, List.append_assoc]
        exact ⟨_, _, rfl, .inr (.inr (.inr ⟨"interface", rfl⟩))⟩

theorem GoType.Legible.beginsType (h : type.Legible qualifiers localPackage)
    (hrest : Stops rest) : LexemeReader.beginsType
      (lexemes ((type.spelling qualifiers localPackage).toList ++ rest)) = true := by
  obtain ⟨element, more, heq, ⟨rfl, -⟩ | rfl | rfl | ⟨word, rfl⟩⟩ := h.exists_lexeme hrest <;>
    rw [heq] <;> rfl

theorem GoType.Legible.head_ne_close (h : type.Legible qualifiers localPackage)
    (hrest : Stops rest) :
    (lexemes ((type.spelling qualifiers localPackage).toList ++ rest)).head? ≠
      some (.mark ')') := by
  obtain ⟨element, more, heq, ⟨rfl, -⟩ | rfl | rfl | ⟨word, rfl⟩⟩ := h.exists_lexeme hrest <;>
    rw [heq] <;> simp

end Elements

section Lists

open LexemeReader

variable {α κ : Type} {text : α → String} {key : α → κ} {reader : LexemeReader κ}

/-- A list of members is read if each member is, with any rest that may come behind it. -/
theorem members_separated {separator closing : String} {between close : Char}
    (hseparator : ∀ rest, Stops (separator.toList ++ rest) ∧
      lexemes (separator.toList ++ rest) = .mark between :: lexemes rest)
    (hclosing : ∀ rest, Stops (closing.toList ++ rest) ∧
      lexemes (closing.toList ++ rest) = .mark close :: lexemes rest) (hne : between ≠ close)
    {xs : List α} (hxs : ∀ x ∈ xs, ∀ rest, Stops rest →
      (lexemes ((text x).toList ++ rest)).head? ≠ some (.mark close) ∧
        reader (lexemes ((text x).toList ++ rest)) = some (key x, lexemes rest))
    {limit : Nat} (hpos : 0 < limit) (hlimit : xs.length ≤ limit) (rest : List Char) :
    members reader between close limit
        (lexemes ((separated separator (xs.map text)).toList ++ (closing.toList ++ rest))) =
      some (xs.map key, lexemes rest) := by
  induction xs generalizing limit with
  | nil =>
      obtain ⟨limit, rfl⟩ := Nat.exists_eq_add_of_lt hpos
      simp [members, separated, hclosing]
  | cons x xs ih =>
      obtain ⟨hx, hxs⟩ := List.forall_mem_cons.1 hxs
      obtain ⟨limit, rfl⟩ := Nat.exists_eq_add_of_lt hpos
      rw [List.map_cons, toList_separated_cons]
      cases xs with
      | nil =>
          obtain ⟨hhead, hread⟩ := hx _ (hclosing rest).1
          simp [members, behindMember, hhead, hread, hclosing]
      | cons y xs =>
          obtain ⟨hhead, hread⟩ :=
            hx (behindMember separator closing rest ((y :: xs).map text)) (hseparator _).1
          simp only [List.length_cons] at hlimit ih
          have hpos : 0 < limit := by omega
          have hmore := ih hxs hpos (by omega)
          simp only [List.map_cons, behindMember] at hhead hread hmore
          simp [members, behindMember, hhead, hread, hseparator, hne, hmore]

theorem length_le_separated (separator : String) {texts : List String} {t : String}
    (h : t ∈ texts) : t.length ≤ (separated separator texts).length := by
  induction texts with
  | nil => cases h
  | cons head rest ih =>
      cases rest with
      | nil => rw [List.mem_singleton.1 h]; exact Nat.le_refl _
      | cons next rest =>
          simp only [separated, String.length_append]
          rcases List.mem_cons.1 h with rfl | h
          · omega
          · have := ih h
            omega

theorem count_le_separated (separator : String) (hseparator : 0 < separator.length)
    (texts : List String) : texts.length ≤ (separated separator texts).length + 1 := by
  induction texts with
  | nil => simp
  | cons head rest ih =>
      cases rest with
      | nil => simp
      | cons next rest =>
          simp only [separated, String.length_append, List.length_cons] at ih ⊢
          omega

end Lists

section Signatures

open LexemeReader

variable {qualifiers : Qualifiers} {localPackage : String} {rest : List Char}

/-- What a reader makes of the text of each of these types. -/
def GoType.ReadBy (qualifiers : Qualifiers) (localPackage : String) (reader : LexemeReader GoType)
    (type : GoType) : Prop :=
  ∀ rest, Stops rest → reader (lexemes ((type.spelling qualifiers localPackage).toList ++ rest)) =
    some (type.asRead qualifiers localPackage, lexemes rest)

variable {reader : LexemeReader GoType}

/-- A member of a parameter list with its type as it is read. -/
def argumentAsRead (qualifiers : Qualifiers) (localPackage : String)
    (argument : Bool × Parameter) : Bool × Parameter :=
  (argument.1, argument.2.asRead qualifiers localPackage)

/-- The words before a bare type belong to it. -/
theorem argument_bare {type : GoType} (h : type.Legible qualifiers localPackage)
    (hrest : Stops rest) :
    argument reader (lexemes ((type.spelling qualifiers localPackage).toList ++ rest)) =
      marked reader "" (lexemes ((type.spelling qualifiers localPackage).toList ++ rest)) := by
  by_cases hleaf : type.opening = .predeclared
  · obtain ⟨first, hfirst, ⟨-, heq⟩ | ⟨name, -, heq⟩⟩ := h.lexemes_leaf hleaf hrest
    · have hhead := hrest.head_lexemes
      rw [heq, argument, if_neg]
      rintro ⟨-, hdots | hbegins⟩
      · exact absurd (hhead _ hdots) (by decide)
      · cases hmore : lexemes rest with
        | nil => simp [hmore, beginsType] at hbegins
        | cons element more =>
            rw [hmore] at hhead hbegins
            have helement := hhead element rfl
            simp only [List.mem_cons, List.not_mem_nil, or_false] at helement
            rcases helement with rfl | rfl | rfl | rfl | rfl <;> cases hbegins
    · rw [heq, argument, if_neg]
      rintro ⟨-, hdots | hbegins⟩
      · cases hdots
      · cases hbegins
  · have hword (word : String) (hword : word ∈ keywords) (more : List Lexeme) :
        argument reader (.word word :: more) = marked reader "" (.word word :: more) := by
      rw [argument, if_neg fun h => h.1 hword]
    cases type with
    | named | predeclared => exact absurd rfl hleaf
    | pointer elem =>
        simp only [GoType.spelling, String.toList_append, List.append_assoc]
        rfl
    | array len elem =>
        rw [toList_spelling_array]
        rfl
    | map key value =>
        simp only [GoType.spelling, String.toList_append, List.append_assoc]
        exact hword "map" (by decide) _
    | chan dir elem =>
        cases dir <;>
          simp only [GoType.spelling, spelledChan, String.toList_append, List.append_assoc]
        · exact hword "chan" (by decide) _
        · rfl
        · exact hword "chan" (by decide) _
    | func params results variadic =>
        simp only [GoType.spelling, spelledSignature_eq, String.toList_append, List.append_assoc]
        exact hword "func" (by decide) _
    | struct fields =>
        obtain ⟨tail, htail⟩ := exists_toList_spelledLiteral "struct"
          (spelledFields qualifiers localPackage fields)
        rw [GoType.spelling, htail, List.append_assoc]
        exact hword "struct" (by decide) _
    | interface methods =>
        obtain ⟨tail, htail⟩ := exists_toList_spelledLiteral "interface"
          (spelledMethods qualifiers localPackage methods)
        rw [GoType.spelling, htail, List.append_assoc]
        exact hword "interface" (by decide) _

/-- A type that no dots stand before is not marked. -/
theorem marked_bare {type : GoType} (h : type.Legible qualifiers localPackage)
    (hread : type.ReadBy qualifiers localPackage reader) (hrest : Stops rest) (name : String) :
    marked reader name (lexemes ((type.spelling qualifiers localPackage).toList ++ rest)) =
      some ((false, ⟨name, type.asRead qualifiers localPackage⟩), lexemes rest) := by
  have hsome := hread rest hrest
  obtain ⟨element, more, heq, ⟨rfl, -⟩ | rfl | rfl | ⟨word, rfl⟩⟩ := h.exists_lexeme hrest <;>
    simp [marked, heq] at hsome ⊢ <;> simp [hsome]

theorem lexemes_named {name : String} (h : IsIdentifier name) (rest : List Char) :
    lexemes (name.toList ++ (" ".toList ++ rest)) = .word name :: lexemes rest :=
  h.lexemes (by rintro _ ⟨⟩; rfl)

theorem argument_spelled {a : Bool × Parameter} (h : a.2.Legible qualifiers localPackage)
    (hread : a.2.type.ReadBy qualifiers localPackage reader) (hrest : Stops rest) :
    (lexemes ((spelledArgument qualifiers localPackage a).toList ++ rest)).head? ≠
        some (.mark ')') ∧
      argument reader (lexemes ((spelledArgument qualifiers localPackage a).toList ++ rest)) =
        some (argumentAsRead qualifiers localPackage a, lexemes rest) := by
  obtain ⟨mark, name, type⟩ := a
  have hdots (more : List Char) : lexemes ("...".toList ++ more) = .dots :: lexemes more := rfl
  have hmarked (name : String) : marked reader name
      (.dots :: lexemes ((type.spelling qualifiers localPackage).toList ++ rest)) =
        some ((true, ⟨name, type.asRead qualifiers localPackage⟩), lexemes rest) := by
    simp [marked, hread rest hrest]
  by_cases hname : name = "" <;> cases mark <;>
    simp only [spelledArgument, spelledVariadic, spelledParameter, hname, String.isEmpty_iff,
      if_true, if_false, Bool.false_eq_true, String.toList_append, List.append_assoc]
  · refine ⟨h.type.head_ne_close hrest, ?_⟩
    rw [argument_bare h.type hrest, marked_bare h.type hread hrest]
    rfl
  · rw [hdots]
    refine ⟨by simp, ?_⟩
    rw [argument, hmarked]
    · rfl
    · rintro _ _ ⟨⟩
  · have hidentifier : IsIdentifier name := h.name hname
    rw [lexemes_named hidentifier]
    refine ⟨by simp, ?_⟩
    rw [argument, if_pos ⟨hidentifier.not_keyword, .inr (h.type.beginsType hrest)⟩,
      marked_bare h.type hread hrest]
    rfl
  · have hidentifier : IsIdentifier name := h.name hname
    rw [lexemes_named hidentifier, hdots]
    refine ⟨by simp, ?_⟩
    rw [argument, if_pos ⟨hidentifier.not_keyword, .inl rfl⟩, hmarked]
    rfl

theorem ofArguments_arguments (params : List Parameter) (variadic : Option Parameter) :
    ofArguments (InterfaceProbe.arguments params variadic) = some (params, variadic) := by
  induction params with
  | nil => cases variadic <;> rfl
  | cons p params ih =>
      show ofArguments ((false, p) :: InterfaceProbe.arguments params variadic) = _
      rw [ofArguments, ih]
      rfl

/-- A parameter list is read if its types are. -/
theorem arguments_spelled {params : List Parameter} {variadic : Option Parameter}
    (hparams : ∀ p ∈ params, p.Legible qualifiers localPackage ∧
      p.type.ReadBy qualifiers localPackage reader)
    (hvariadic : ∀ p ∈ variadic, p.Legible qualifiers localPackage ∧
      p.type.ReadBy qualifiers localPackage reader)
    {limit : Nat} (hpos : 0 < limit)
    (hlimit : (InterfaceProbe.arguments params variadic).length ≤ limit) (rest : List Char) :
    LexemeReader.arguments reader limit (lexemes ((separated ", "
        ((InterfaceProbe.arguments params variadic).map
          (spelledArgument qualifiers localPackage))).toList ++ (")".toList ++ rest))) =
      some ((params.map (Parameter.asRead qualifiers localPackage),
        variadic.map (Parameter.asRead qualifiers localPackage)), lexemes rest) := by
  have hmembers := forall_mem_arguments.2 ⟨hparams, hvariadic⟩
  have hcomma (rest : List Char) : Stops (", ".toList ++ rest) ∧
      lexemes (", ".toList ++ rest) = .mark ',' :: lexemes rest := ⟨.mark (by decide), rfl⟩
  have hparenthesis (rest : List Char) : Stops (")".toList ++ rest) ∧
      lexemes (")".toList ++ rest) = .mark ')' :: lexemes rest := ⟨.mark (by decide), rfl⟩
  have hlisted := members_separated hcomma hparenthesis (by decide)
    (fun a ha rest hrest => argument_spelled (hmembers a ha).1 (hmembers a ha).2 hrest) hpos
    hlimit rest
  have hkeys : (InterfaceProbe.arguments params variadic).map
      (argumentAsRead qualifiers localPackage) =
        InterfaceProbe.arguments (params.map (Parameter.asRead qualifiers localPackage))
          (variadic.map (Parameter.asRead qualifiers localPackage)) := by
    cases variadic <;> simp [InterfaceProbe.arguments, argumentAsRead, Function.comp_def]
  rw [LexemeReader.arguments, hlisted]
  simp [hkeys, ofArguments_arguments]

/-- Nothing that stops a type begins a result. -/
theorem results_stops (limit : Nat) (hrest : Stops rest) :
    results reader limit (lexemes rest) = some ([], lexemes rest) := by
  have hhead := hrest.head_lexemes
  cases hmore : lexemes rest with
  | nil => rfl
  | cons element more =>
      rw [hmore] at hhead
      have helement := hhead element rfl
      simp only [List.mem_cons, List.not_mem_nil, or_false] at helement
      rcases helement with rfl | rfl | rfl | rfl | rfl <;> rfl

theorem results_bare {type : GoType} (h : type.Legible qualifiers localPackage)
    (hread : type.ReadBy qualifiers localPackage reader) (limit : Nat) (hrest : Stops rest) :
    results reader limit (lexemes ((type.spelling qualifiers localPackage).toList ++ rest)) =
      some ([⟨"", type.asRead qualifiers localPackage⟩], lexemes rest) := by
  have hsome := hread rest hrest
  obtain ⟨element, more, heq, ⟨rfl, -⟩ | rfl | rfl | ⟨word, rfl⟩⟩ := h.exists_lexeme hrest <;>
    rw [heq] at hsome ⊢ <;> simp [results, hsome, beginsType]

theorem results_spelled {listed : List Parameter} (h : ∀ p ∈ listed,
      p.Legible qualifiers localPackage ∧ p.type.ReadBy qualifiers localPackage reader)
    {limit : Nat} (hlimit : (spelledResults (spelledParameters qualifiers localPackage
      listed)).length ≤ limit) (hrest : Stops rest) :
    results reader limit (lexemes
        ((spelledResults (spelledParameters qualifiers localPackage listed)).toList ++ rest)) =
      some (listed.map (Parameter.asRead qualifiers localPackage), lexemes rest) := by
  rcases spelledResults_cases listed with rfl | ⟨type, rfl⟩ | hlisted
  · exact results_stops limit hrest
  · obtain ⟨hlegible, hread⟩ := List.forall_mem_singleton.1 h
    rw [toList_spelledResults_bare]
    exact results_bare hlegible.type hread limit hrest
  · have hnone {condition : Parameter → Prop} : ∀ p ∈ (none : Option Parameter), condition p := by
      simp
    have hcount := count_le_separated ", " (by decide)
      ((InterfaceProbe.arguments listed none).map (spelledArgument qualifiers localPackage))
    rw [List.length_map] at hcount
    rw [hlisted] at hlimit ⊢
    simp only [String.length_append, String.toList_append, List.append_assoc] at hlimit ⊢
    have hopen (more : List Char) : lexemes (" (".toList ++ more) = .mark '(' :: lexemes more := rfl
    have htwo : " (".length = 2 := rfl
    rw [hopen, results, arguments_spelled h hnone (by omega) (by omega)]
    rfl

/-- A signature is read if its types are. -/
theorem signature_spelled {m : Method} (hm : ∀ p ∈ m.declared,
      p.Legible qualifiers localPackage ∧ p.type.ReadBy qualifiers localPackage reader)
    {limit : Nat} (hlimit : (m.signature qualifiers localPackage).length ≤ limit)
    (hrest : Stops rest) :
    LexemeReader.signature reader limit
        (lexemes ((m.signature qualifiers localPackage).toList ++ rest)) =
      some ({ m.asRead qualifiers localPackage with name := "" }, lexemes rest) := by
  obtain ⟨hparams, hresults, hvariadic⟩ := Method.forall_mem_declared.1 hm
  have hcount := count_le_separated ", " (by decide)
    ((InterfaceProbe.arguments m.params m.variadic).map (spelledArgument qualifiers localPackage))
  rw [List.length_map] at hcount
  rw [Method.signature, spelledSignature_eq] at hlimit ⊢
  simp only [String.length_append, String.toList_append, List.append_assoc] at hlimit ⊢
  have hopen (more : List Char) : lexemes ("(".toList ++ more) = .mark '(' :: lexemes more := rfl
  have hone : "(".length = 1 := rfl
  have hlisted := arguments_spelled hparams hvariadic (show 0 < limit by omega) (by omega)
    ((spelledResults (spelledParameters qualifiers localPackage m.results)).toList ++ rest)
  have hbehind := results_spelled hresults (show _ ≤ limit by omega) hrest
  rw [hopen, LexemeReader.signature, hlisted]
  simp [-spelledParameters_eq_map, hbehind, Method.asRead]

end Signatures

section Literals

open LexemeReader

variable {qualifiers : Qualifiers} {localPackage : String} {rest : List Char}
  {reader : LexemeReader GoType}

/-- The members of a literal are read if each of them is. -/
theorem braced_spelled {α κ : Type} {text : α → String} {key : α → κ} {member : LexemeReader κ}
    (keyword : String) (hkeyword : ∀ rest, lexemes (keyword.toList ++ '\x7b' :: rest) =
      .word keyword :: .mark '\x7b' :: lexemes rest) (xs : List α)
    (hxs : ∀ x ∈ xs, ∀ rest, Stops rest →
      (lexemes ((text x).toList ++ rest)).head? ≠ some (.mark '\x7d') ∧
        member (lexemes ((text x).toList ++ rest)) = some (key x, lexemes rest))
    (hpos : 0 < keyword.length) {limit : Nat}
    (hlimit : (spelledLiteral keyword (xs.map text)).length ≤ limit + 1) (rest : List Char) :
    ∃ inside, lexemes ((spelledLiteral keyword (xs.map text)).toList ++ rest) =
        .word keyword :: inside ∧
      braced limit member inside = some (xs.map key, lexemes rest) := by
  cases xs with
  | nil =>
      simp only [List.map_nil, spelledLiteral, String.length_append, String.toList_append,
        List.append_assoc] at hlimit ⊢
      have htwo : "\x7b\x7d".length = 2 := rfl
      obtain ⟨limit, rfl⟩ : ∃ n, limit = n + 1 := ⟨limit - 1, by omega⟩
      exact ⟨_, hkeyword ('\x7d' :: rest), rfl⟩
  | cons x xs =>
      have hcount := count_le_separated "; " (by decide) ((x :: xs).map text)
      rw [List.length_map] at hcount
      simp only [List.map_cons, spelledLiteral, String.length_append, String.toList_append,
        List.append_assoc] at hlimit hcount ⊢
      have htwo : "\x7b ".length = 2 := rfl
      have hsemicolon (rest : List Char) : Stops ("; ".toList ++ rest) ∧
          lexemes ("; ".toList ++ rest) = .mark ';' :: lexemes rest := ⟨.mark (by decide), rfl⟩
      have hbrace (rest : List Char) : Stops (" \x7d".toList ++ rest) ∧
          lexemes (" \x7d".toList ++ rest) = .mark '\x7d' :: lexemes rest := ⟨.brace, rfl⟩
      have hpos : 0 < limit := by omega
      have hread := members_separated hsemicolon hbrace (by decide) hxs hpos (by omega) rest
      exact ⟨_, hkeyword (' ' :: _), hread⟩

theorem field_spelled {f : Field} (hname : IsIdentifier f.name)
    (hread : f.type.ReadBy qualifiers localPackage reader) (hrest : Stops rest) :
    let text := (f.name ++ " " ++ f.type.spelling qualifiers localPackage).toList
    (lexemes (text ++ rest)).head? ≠ some (.mark '\x7d') ∧
      field reader (lexemes (text ++ rest)) =
        some (f.asRead qualifiers localPackage, lexemes rest) := by
  simp only [String.toList_append, List.append_assoc]
  rw [lexemes_named hname]
  refine ⟨by simp, ?_⟩
  simp [field, hread rest hrest, Field.asRead]

theorem method_spelled {m : Method} (hname : IsIdentifier m.name) (hm : ∀ p ∈ m.declared,
      p.Legible qualifiers localPackage ∧ p.type.ReadBy qualifiers localPackage reader)
    {limit : Nat} (hlimit : (m.name ++ m.signature qualifiers localPackage).length ≤ limit)
    (hrest : Stops rest) :
    let text := (m.name ++ m.signature qualifiers localPackage).toList
    (lexemes (text ++ rest)).head? ≠ some (.mark '\x7d') ∧
      method reader limit (lexemes (text ++ rest)) =
        some (m.asRead qualifiers localPackage, lexemes rest) := by
  rw [String.length_append] at hlimit
  have hread := signature_spelled hm (show _ ≤ limit by omega) hrest
  have hparen : ∀ c ∈ ((m.signature qualifiers localPackage).toList ++ rest).head?,
      isWordChar c = false := by
    rw [Method.signature, spelledSignature_eq]
    simp only [String.toList_append, List.append_assoc]
    rintro _ ⟨⟩
    rfl
  simp only [String.toList_append, List.append_assoc]
  rw [hname.lexemes hparen]
  refine ⟨by simp, ?_⟩
  simp [method, hread, Method.asRead]

end Literals

end InterfaceProbe
