/-
# A program tells its request

A program is read from its beginning: a literal wherever one is due, and fixed
text in between.  Symbols may be any texts, so an entry can hold the text of
other entries, quotes and line feeds included.  That does no harm, since a
literal tells its own end and a selector is as long as the name in front of it.
Behind the last entry the text goes on in a way in which no entry begins.
-/

import InterfaceProbe.Proofs.Probe.Layout
import InterfaceProbe.Proofs.Probe.Literals

namespace InterfaceProbe

namespace Program

/-- What a program says, place by place. -/
structure Listing where
  /-- The import path of the model package. -/
  modelImport : String
  /-- The path of the other package in the clause of the imports. -/
  importPath : String
  /-- The name of each entry and its selector. -/
  entries : List (String × String)
  /-- The path that gives the report its name. -/
  reportPath : String
  deriving DecidableEq, Repr

/-- The request and the model import of a listing. -/
def Listing.request (listing : Listing) : ProbeRequest × String :=
  (⟨listing.importPath, listing.entries.map Prod.fst⟩, listing.modelImport)

section Reading

/-- What stands behind a fixed text. -/
def behind? (fixed : String) (text : List Char) : Option (List Char) :=
  fixed.toList.isPrefixOf? text

/-- The text of an open literal, of which there are the given bytes, and what stands behind it. -/
def literalFrom? (spot : Spot) (value : Bytes) : List Char → Option (String × List Char)
  | [] => none
  | c :: rest =>
    if spot = .plain ∧ c = '\"' then (utf8? value).map (·, rest)
    else do
      let (next, bytes) ← spot.next? c
      literalFrom? next (value ++ bytes) rest

/-- The text of the literal at the beginning, and what stands behind it. -/
def literal? : List Char → Option (String × List Char)
  | [] => none
  | c :: rest => if c = '\"' then literalFrom? .plain [] rest else none

/-- As many characters as a name has, and what stands behind them. -/
def sameLength? (name : String) (text : List Char) : Option (String × List Char) :=
  if name.length ≤ text.length then
    some (String.ofList (text.take name.length), text.drop name.length)
  else none

/-- The name and the selector of the entry at the beginning, and what stands behind it. -/
def namedSelector? (text : List Char) : Option ((String × String) × List Char) := do
  let text ← behind? entryOpening text
  let (name, text) ← literal? text
  let text ← behind? selectorOpening text
  let (selector, text) ← sameLength? name text
  let text ← behind? entryClosing text
  return ((name, selector), text)

end Reading

section Shorter

variable {fixed name value : String} {text rest : List Char}

theorem behind?_eq_some_iff : behind? fixed text = some rest ↔ fixed.toList ++ rest = text :=
  List.isPrefixOf?_eq_some_iff_append_eq

theorem length_of_literalFrom? {spot : Spot} {bytes : Bytes}
    (h : literalFrom? spot bytes text = some (value, rest)) : rest.length ≤ text.length := by
  induction text generalizing spot bytes with
  | nil => cases h
  | cons c text ih =>
      rw [List.length_cons]
      simp only [literalFrom?] at h
      split at h
      · obtain ⟨_, -, heq⟩ := Option.map_eq_some_iff.1 h
        cases heq
        exact Nat.le_succ _
      · obtain ⟨⟨next, _⟩, -, h⟩ := Option.bind_eq_some_iff.1 h
        exact Nat.le_succ_of_le (ih h)

theorem length_of_literal? (h : literal? text = some (value, rest)) :
    rest.length ≤ text.length := by
  cases text with
  | nil => cases h
  | cons c text =>
      simp only [literal?, Option.ite_none_right_eq_some] at h
      exact Nat.le_succ_of_le (length_of_literalFrom? h.2)

theorem length_of_sameLength? (h : sameLength? name text = some (value, rest)) :
    rest.length ≤ text.length := by
  simp only [sameLength?, Option.ite_none_right_eq_some, Option.some.injEq, Prod.mk.injEq] at h
  rcases h with ⟨-, -, rfl⟩
  simp

/-- An entry takes at least its opening. -/
theorem length_lt_of_namedSelector? {entry : String × String}
    (h : namedSelector? text = some (entry, rest)) :
    rest.length < text.length := by
  simp only [namedSelector?, Option.bind_eq_bind, Option.bind_eq_some_iff, Option.pure_def,
    Option.some.injEq, Prod.mk.injEq, Prod.exists, behind?_eq_some_iff] at h
  obtain ⟨inside, rfl, name, named, hname, chosen, rfl, selector, closed, hselector, last, rfl, -,
    rfl⟩ := h
  have hopening : 0 < entryOpening.toList.length := by decide
  have hnamed := length_of_literal? hname
  have hclosed := length_of_sameLength? hselector
  simp only [List.length_append] at hnamed hclosed ⊢
  omega

end Shorter

/-- The entries at the beginning, and what stands behind them. -/
def entries (text : List Char) : List (String × String) × List Char :=
  match _hentry : namedSelector? text with
  | none => ([], text)
  | some (entry, rest) =>
    let later := entries rest
    (entry :: later.1, later.2)
termination_by text.length
decreasing_by exact length_lt_of_namedSelector? _hentry

/-- What a program says, if it is one. -/
def listing? (text : List Char) : Option Listing := do
  let text ← behind? opening text
  let (modelImport, text) ← literal? text
  let text ← behind? importGap text
  let (importPath, text) ← literal? text
  let text ← behind? entriesGap text
  let (entries, text) := entries text
  let text ← behind? nameOpening text
  let (reportPath, text) ← literal? text
  let text ← behind? closing text
  if text.isEmpty then return ⟨modelImport, importPath, entries, reportPath⟩ else none

section Written

variable (text : String) (rest : List Char)

theorem behind?_append : behind? text (text.toList ++ rest) = some rest :=
  behind?_eq_some_iff.2 rfl

theorem literalFrom?_of_advance? (rest : List Char) {spot last : Spot} {inside : List Char}
    (value : Bytes) {bytes : Bytes} (h : spot.advance? inside = some (last, bytes)) :
    literalFrom? spot value (inside ++ rest) = literalFrom? last (value ++ bytes) rest := by
  induction inside generalizing spot value bytes with
  | nil =>
      cases h
      rw [List.append_nil]
      rfl
  | cons c inside ih =>
      obtain ⟨next, first, others, hc, hinside, rfl⟩ := Spot.advance?_cons_eq_some_iff.1 h
      have hopen : ¬ (spot = .plain ∧ c = '\"') := by
        rintro ⟨rfl, rfl⟩
        cases hc
      rw [List.cons_append, literalFrom?, if_neg hopen, hc, ← List.append_assoc]
      exact ih _ hinside

/-- The literal of a text gives the text back, whatever follows. -/
theorem literal?_quoted : literal? ((quoted text).toList ++ rest) = some (text, rest) := by
  have hvalue : utf8? (utf8 text) = some text := fromUTF8?_toByteArray_eq_some_iff.2 rfl
  have hinside := literalFrom?_of_advance? ('\"' :: rest) [] (advance?_quoted text)
  rw [toList_quoted, List.cons_append, List.append_assoc, literal?, if_pos rfl]
  simpa [literalFrom?, hvalue] using hinside

theorem sameLength?_append : sameLength? text (text.toList ++ rest) = some (text, rest) := by
  simp [sameLength?, ← String.length_toList]

/-- An entry gives its symbol back as its name and as its selector. -/
theorem namedSelector?_entrySegments (symbol : String) :
    namedSelector? ((entrySegments symbol).flatMap Segment.chars ++ rest) =
      some ((symbol, symbol), rest) := by
  simp [namedSelector?, entrySegments, Segment.chars, behind?_append, literal?_quoted,
    sameLength?_append]

/-- What follows the entries begins like none. -/
theorem namedSelector?_nameOpening : namedSelector? (nameOpening.toList ++ rest) = none := by
  have hentry : entryOpening.toList = ['\t', '\t', '\x7b', ' '] := by decide
  have hmark : "\t\x7d".toList = ['\t', '\x7d'] := by decide
  obtain ⟨lines, hlines⟩ : ∃ lines, (mainLines "").take 5 = "\t\x7d" :: lines := ⟨_, rfl⟩
  have hbehind : behind? entryOpening (nameOpening.toList ++ rest) = none := by
    rw [behind?, hentry, nameOpening, String.toList_append, toList_asLines, hlines,
      List.flatMap_cons, hmark]
    simp [List.isPrefixOf?]
  simp [namedSelector?, hbehind]

theorem entries_of_namedSelector? {text : List Char} {entry : String × String}
    (h : namedSelector? text = some (entry, rest)) :
    entries text = (entry :: (entries rest).1, (entries rest).2) := by
  rw [entries]
  split <;> simp_all

theorem entries_of_none {text : List Char} (h : namedSelector? text = none) :
    entries text = ([], text) := by
  rw [entries]
  split <;> simp_all

/-- The entries of symbols give the symbols back in their order. -/
theorem entries_of_symbols (symbols : List String) :
    entries
        ((symbols.flatMap entrySegments).flatMap Segment.chars ++ (nameOpening.toList ++ rest)) =
      (symbols.map fun symbol => (symbol, symbol), nameOpening.toList ++ rest) := by
  induction symbols with
  | nil =>
      rw [List.flatMap_nil, List.flatMap_nil, List.nil_append,
        entries_of_none (namedSelector?_nameOpening rest), List.map_nil]
  | cons symbol symbols ih =>
      rw [List.flatMap_cons, List.flatMap_append, List.append_assoc,
        entries_of_namedSelector? _ (namedSelector?_entrySegments _ symbol), ih, List.map_cons]

/-- A program lists what it was written for. -/
theorem listing?_program (request : ProbeRequest) (modelImport : String) :
    listing? (request.program modelImport).toList =
      some ⟨modelImport, request.importPath, request.symbols.map fun symbol => (symbol, symbol),
        request.importPath⟩ := by
  have hend : behind? closing closing.toList = some [] :=
    behind?_eq_some_iff.2 (List.append_nil _)
  rw [toList_program]
  simp only [listing?, Option.bind_eq_bind]
  rw [behind?_append, Option.bind_some, literal?_quoted, Option.bind_some, behind?_append,
    Option.bind_some, literal?_quoted, Option.bind_some, behind?_append, Option.bind_some,
    entries_of_symbols, behind?_append, Option.bind_some, literal?_quoted, Option.bind_some, hend]
  rfl

/-- The listing of a program has its request. -/
theorem request_program (request : ProbeRequest) (modelImport : String) :
    (listing? (request.program modelImport).toList).map Listing.request =
      some (request, modelImport) := by
  simp [listing?_program, Listing.request, Function.comp_def]

end Written

end Program

open Program in
/-- Reading a program back gives its request and its model import.  The symbols are the names of
the entries in order, once each, and their selectors; the clause of the imports and the name of the
report have the same path.  So programs differ where requests or model imports do. -/
theorem program_tells_request (request : ProbeRequest) (modelImport : String) :
    listing? (request.program modelImport).toList =
        some ⟨modelImport, request.importPath, request.symbols.map fun symbol => (symbol, symbol),
          request.importPath⟩ ∧
      (listing? (request.program modelImport).toList).map Listing.request =
        some (request, modelImport) ∧
      ∀ (other : ProbeRequest) (otherImport : String),
        request.program modelImport = other.program otherImport ↔
          request = other ∧ modelImport = otherImport := by
  refine ⟨listing?_program request modelImport, request_program request modelImport, ?_⟩
  intro other otherImport
  apply Iff.intro
  · intro h
    have hrequest := request_program request modelImport
    rw [h, request_program other otherImport] at hrequest
    simpa [eq_comm] using hrequest
  · intro h
    rw [h.1, h.2]

end InterfaceProbe
