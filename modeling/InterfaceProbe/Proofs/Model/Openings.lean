/-
# What spellings begin with

The beginning of a spelling tells what kind of type it is the spelling of: a word
that the language keeps for itself or a mark opens a literal or a composed type,
any other word opens a leaf.  Spellings are read with a rest behind them, which is
nothing or begins with a mark that no type goes on with (`Stops`).
-/

import InterfaceProbe.Proofs.Model.Outline
import InterfaceProbe.Wire.Record

namespace InterfaceProbe

section Rests

/-- What may come behind a type: nothing, the next member of a list, or the end of what the type
stands in. -/
inductive Stops : List Char → Prop
  | nil : Stops []
  | mark {c : Char} {rest : List Char} : c ∈ [',', ')', ']', ';'] → Stops (c :: rest)
  | brace {rest : List Char} : Stops (' ' :: '\x7d' :: rest)

/-- Neither a word nor a qualified name goes on there. -/
theorem Stops.head {rest : List Char} (h : Stops rest) :
    ∀ c ∈ rest.head?, isWordChar c = false ∧ c ≠ '.' := by
  cases h with
  | nil => simp
  | @mark mark rest hmark =>
      rintro c ⟨⟩
      simp only [List.mem_cons, List.not_mem_nil, or_false] at hmark
      rcases hmark with rfl | rfl | rfl | rfl <;> decide
  | brace =>
      rintro c ⟨⟩
      decide

end Rests

section Openings

/-- The kind of type that a word opens.  A name opens a leaf. -/
def kindOfWord (word : String) : Kind :=
  let kinds : List Kind := [.map, .chan, .func, .struct, .interface]
  (kinds.find? fun kind => kind.name == word).getD .predeclared

/-- The kind of type that a mark opens, if any type begins with it. -/
def kindOfMark? : Char → Option Kind
  | '*' => some .pointer
  | '[' => some .array
  | '<' => some .chan
  | _ => none

/-- The kind of type that a text begins with, going by its first word or, without one, by its
first mark. -/
def openedKind? (text : List Char) : Option Kind :=
  match text.takeWhile isWordChar with
  | [] => text.head?.bind kindOfMark?
  | c :: word => some (kindOfWord (String.ofList (c :: word)))

/-- The kind of a type, declared types counting among the leaves. -/
def GoType.opening : GoType → Kind
  | .named .. => .predeclared
  | .pointer _ => .pointer
  | .array .. => .array
  | .map .. => .map
  | .chan .. => .chan
  | .func .. => .func
  | .struct _ => .struct
  | .interface _ => .interface
  | .predeclared _ => .predeclared

theorem kindOfWord_of_identifier {name : String} (h : IsIdentifier name) :
    kindOfWord name = .predeclared := by
  have hkeywords : ∀ kind ∈ ([.map, .chan, .func, .struct, .interface] : List Kind),
      kind.name ∈ keywords := by decide
  have hnone : ([.map, .chan, .func, .struct, .interface] : List Kind).find?
      (fun kind => kind.name == name) = none := by
    rw [List.find?_eq_none]
    intro kind hkind hname
    exact h.not_keyword (eq_of_beq hname ▸ hkeywords kind hkind)
  rw [kindOfWord, hnone, Option.getD_none]

theorem openedKind?_word {word : String} {rest : List Char} (hne : word.toList ≠ [])
    (hword : ∀ c ∈ word.toList, isWordChar c) (hrest : ∀ c ∈ rest.head?, isWordChar c = false) :
    openedKind? (word.toList ++ rest) = some (kindOfWord word) := by
  have htake : (word.toList ++ rest).takeWhile isWordChar = word.toList := by
    rw [List.takeWhile_append_of_pos hword]
    cases rest with
    | nil => simp
    | cons c rest => simp [hrest c rfl]
  obtain ⟨c, tail, hcons⟩ := List.exists_cons_of_ne_nil hne
  have hsame : word = String.ofList (c :: tail) := by rw [← hcons, String.ofList_toList]
  rw [openedKind?, htake, hcons, hsame]

theorem openedKind?_mark {mark : Char} (hmark : isWordChar mark = false) (rest : List Char) :
    openedKind? (mark :: rest) = kindOfMark? mark := by
  simp [openedKind?, hmark]

variable {qualifiers : Qualifiers} {localPackage : String} {type : GoType} {rest : List Char}

/-- A leaf is spelled by an identifier, or by two with a dot between them. -/
theorem GoType.Legible.leaf (h : type.Legible qualifiers localPackage)
    (hleaf : type.opening = .predeclared) :
    ∃ first : String, IsIdentifier first ∧ ∃ more : List Char,
      (type.spelling qualifiers localPackage).toList = first.toList ++ more ∧
        (more = [] ∨ ∃ name : String, IsIdentifier name ∧ more = '.' :: name.toList) := by
  cases h with
  | predeclared hname => exact ⟨_, hname, [], by simp [spelling], Or.inl rfl⟩
  | @named package name hname hpackage =>
      cases package with
      | none => exact ⟨_, hname, [], by simp [spelling, spelledName], Or.inl rfl⟩
      | some path =>
          by_cases hlocal : path = localPackage
          · exact ⟨_, hname, [], by simp [spelling, spelledName, hlocal], Or.inl rfl⟩
          · refine ⟨_, hpackage path rfl hlocal, '.' :: name.toList, ?_, Or.inr ⟨_, hname, rfl⟩⟩
            simp [spelling, spelledName, hlocal]
  | _ => cases hleaf

theorem exists_toList_spelledLiteral (keyword : String) (members : List String) :
    ∃ tail, (spelledLiteral keyword members).toList = keyword.toList ++ '\x7b' :: tail := by
  cases members with
  | nil => exact ⟨['\x7d'], by simp [spelledLiteral]⟩
  | cons member rest =>
      exact ⟨' ' :: ((separated "; " (member :: rest)).toList ++ [' ', '\x7d']),
        by simp [spelledLiteral]⟩

/-- A spelling tells the kind of its type. -/
theorem openedKind?_spelling (h : type.Legible qualifiers localPackage) (hrest : Stops rest) :
    openedKind? ((type.spelling qualifiers localPackage).toList ++ rest) = some type.opening := by
  have keyword (kind : Kind) (hkind : kind ∈ [Kind.map, .chan, .func, .struct, .interface])
      (mark : Char) (hmark : isWordChar mark = false) (tail : List Char) :
      openedKind? (kind.name.toList ++ mark :: tail) = some kind := by
    have hwords : ∀ kind ∈ [Kind.map, .chan, .func, .struct, .interface],
        kind.name.toList ≠ [] ∧ kind.name.toList.all isWordChar = true ∧
          kindOfWord kind.name = kind := by decide
    obtain ⟨hne, hword, hsame⟩ := hwords kind hkind
    rw [openedKind?_word hne (List.all_eq_true.1 hword) (by simpa using hmark), hsame]
  by_cases hleaf : type.opening = .predeclared
  · obtain ⟨first, hfirst, more, htext, hmore⟩ := h.leaf hleaf
    rw [htext, List.append_assoc, hleaf, openedKind?_word hfirst.ne_empty hfirst.isWordChar,
      kindOfWord_of_identifier hfirst]
    rcases hmore with rfl | ⟨name, -, rfl⟩
    · exact fun c hc => (hrest.head c hc).1
    · rintro c ⟨⟩
      rfl
  · cases type with
    | named | predeclared => exact absurd rfl hleaf
    | pointer elem =>
        rw [GoType.spelling, String.toList_append]
        exact openedKind?_mark rfl _
    | array len elem =>
        cases len <;> simp only [GoType.spelling, String.toList_append]
        · exact openedKind?_mark rfl _
        · exact openedKind?_mark rfl _
    | map key value =>
        simp only [GoType.spelling, String.toList_append, List.append_assoc]
        exact keyword .map (by decide) '[' rfl _
    | chan dir elem =>
        cases dir <;> simp only [GoType.spelling, spelledChan, String.toList_append,
          List.append_assoc]
        · exact keyword .chan (by decide) ' ' rfl _
        · exact openedKind?_mark rfl _
        · exact keyword .chan (by decide) '<' rfl _
    | func params results variadic =>
        simp only [GoType.spelling, spelledSignature_eq, String.toList_append, List.append_assoc]
        exact keyword .func (by decide) '(' rfl _
    | struct fields =>
        obtain ⟨tail, htail⟩ := exists_toList_spelledLiteral "struct"
          (spelledFields qualifiers localPackage fields)
        rw [GoType.spelling, htail, List.append_assoc]
        exact keyword .struct (by decide) '\x7b' rfl _
    | interface methods =>
        obtain ⟨tail, htail⟩ := exists_toList_spelledLiteral "interface"
          (spelledMethods qualifiers localPackage methods)
        rw [GoType.spelling, htail, List.append_assoc]
        exact keyword .interface (by decide) '\x7b' rfl _

end Openings

end InterfaceProbe
