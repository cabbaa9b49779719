/-
# Lexical elements of type texts

A type text is a sequence of words, marks, arrows and groups of three dots, and
blanks do nothing but keep words apart.  An arrow is one element: the direction of
a channel shows in where it stands, and nowhere else.  Numerals count as words.

What is cut here is what spellings are made of; comments, line ends and the other
operators of the language do not occur in them and are left out.
-/

import InterfaceProbe.Proofs.Model.Words

namespace InterfaceProbe

/-- The lexical elements that type texts consist of. -/
inductive Lexeme
  | word (text : String)
  | mark (c : Char)
  /-- The operator `<-`. -/
  | arrow
  /-- The operator `...`. -/
  | dots
  deriving DecidableEq, Repr

section Cutting

/-- The word that a run of characters amounts to, if there is any character in it. -/
def wordOf (run : List Char) : List Lexeme :=
  if run = [] then [] else [.word (String.ofList run)]

/-- The elements of a text behind a run of characters that belong to a word. -/
def lexemesFrom (run : List Char) : List Char → List Lexeme
  | [] => wordOf run
  | '<' :: '-' :: rest => wordOf run ++ .arrow :: lexemesFrom [] rest
  | '.' :: '.' :: '.' :: rest => wordOf run ++ .dots :: lexemesFrom [] rest
  | c :: rest =>
    if isWordChar c then lexemesFrom (run ++ [c]) rest
    else if c = ' ' then wordOf run ++ lexemesFrom [] rest
    else wordOf run ++ .mark c :: lexemesFrom [] rest

/-- The lexical elements of a text. -/
def lexemes (text : List Char) : List Lexeme := lexemesFrom [] text

example : lexemes "map[string]chan<- p.T".toList =
    [.word "map", .mark '[', .word "string", .mark ']', .word "chan", .arrow, .word "p", .mark '.',
      .word "T"] := by decide

end Cutting

section Pieces

variable {run rest : List Char}

theorem lexemesFrom_wordChar {c : Char} (hc : isWordChar c) :
    lexemesFrom run (c :: rest) = lexemesFrom (run ++ [c]) rest := by
  rw [lexemesFrom]
  · rw [if_pos hc]
  · rintro _ rfl
    exact absurd hc (by decide)
  · rintro _ rfl
    exact absurd hc (by decide)

/-- A word ends where something else follows. -/
theorem lexemesFrom_of_head (hrest : ∀ c ∈ rest.head?, isWordChar c = false) :
    lexemesFrom run rest = wordOf run ++ lexemes rest := by
  unfold lexemes lexemesFrom
  split
  · simp [wordOf]
  · simp [wordOf]
  · simp [wordOf]
  · next c rest _ _ => simp [hrest c rfl, wordOf]; split <;> simp

theorem lexemesFrom_append {word : List Char} (hword : ∀ c ∈ word, isWordChar c) :
    lexemesFrom run (word ++ rest) = lexemesFrom (run ++ word) rest := by
  induction word generalizing run with
  | nil => simp
  | cons c word ih =>
      obtain ⟨hc, hword⟩ := List.forall_mem_cons.1 hword
      rw [List.cons_append, lexemesFrom_wordChar hc, ih hword, List.append_assoc,
        List.singleton_append]

theorem lexemes_word {word : String} (hne : word.toList ≠ [])
    (hword : ∀ c ∈ word.toList, isWordChar c) (hrest : ∀ c ∈ rest.head?, isWordChar c = false) :
    lexemes (word.toList ++ rest) = .word word :: lexemes rest := by
  rw [lexemes, lexemesFrom_append hword, lexemesFrom_of_head hrest, List.nil_append, wordOf,
    if_neg hne, String.ofList_toList, List.singleton_append]

theorem IsIdentifier.lexemes {name : String} (h : IsIdentifier name)
    (hrest : ∀ c ∈ rest.head?, InterfaceProbe.isWordChar c = false) :
    InterfaceProbe.lexemes (name.toList ++ rest) = .word name :: InterfaceProbe.lexemes rest :=
  lexemes_word h.ne_empty h.isWordChar hrest

/-- A dot that does not begin a group is an element of its own. -/
theorem lexemes_dot (hrest : ∀ c ∈ rest.head?, c ≠ '.') :
    lexemes ('.' :: rest) = .mark '.' :: lexemes rest := by
  rw [lexemes, lexemesFrom]
  · simp [lexemes, wordOf, show isWordChar '.' = false from rfl]
  · rintro _ h
    exact absurd h (by decide)
  · rintro rest - rfl
    exact hrest '.' rfl rfl

end Pieces

end InterfaceProbe
