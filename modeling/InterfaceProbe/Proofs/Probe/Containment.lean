/-
# Paths stay in their literals

Whatever the paths of a request are, each is the value of one token of the
program, at the place where its literal stands, and the program around the
literals is the one for empty paths.  Symbols stand in the code as well, so they
have to be identifiers: another symbol can be anything there.

A byte order mark is written as it is.  The lexical rules have it in a literal
like any other character, though a compiler may refuse the program for it.
-/

import InterfaceProbe.Proofs.Model.Words
import InterfaceProbe.Proofs.Probe.Layout
import InterfaceProbe.Proofs.Probe.Tokens

namespace InterfaceProbe

open Program

namespace Segment

section Tokens

/-- The tokens of a segment that begins and ends in code. -/
def tokens : Segment → List Token
  | .code text => ((State.code.scan? text.toList).map Prod.fst).getD []
  | .literal value => [.literal (quoted value).toList (utf8 value)]

/-- Parts that are cut into tokens whatever stands around them. -/
def Closed (segment : Segment) : Prop :=
  State.code.scan? segment.chars = some (segment.tokens, .code)

theorem closed_literal (value : String) : (Segment.literal value).Closed :=
  scan?_quoted value

theorem closed_code {text : String} (h : EndsInCode text.toList) : (Segment.code text).Closed := by
  obtain ⟨⟨tokens, last⟩, hscan, rfl⟩ := Option.map_eq_some_iff.1 h
  simp [Closed, chars, Segment.tokens, hscan]

theorem Closed.sources {segment : Segment} (h : segment.Closed) :
    segment.tokens.flatMap Token.source = segment.chars := by
  have hsources := sources_scan? h
  simpa [State.pending] using hsources

/-- Closed segments one after the other are cut into tokens segment by segment. -/
theorem scan?_of_closed {segments : List Segment} (h : ∀ segment ∈ segments, segment.Closed) :
    State.code.scan? (segments.flatMap chars) = some (segments.flatMap tokens, .code) := by
  induction segments with
  | nil => rfl
  | cons segment segments ih =>
      have hsegment := h segment List.mem_cons_self
      have hsegments := ih fun other hother => h other (List.mem_cons_of_mem segment hother)
      exact State.scan?_append hsegment hsegments

end Tokens

section Blanks

/-- The segment with the empty text for its literal. -/
def emptied : Segment → Segment
  | .code text => .code text
  | .literal _ => .literal ""

theorem blanked_emptied (segment : Segment) :
    segment.emptied.tokens.flatMap Token.blanked = segment.tokens.flatMap Token.blanked := by
  cases segment with
  | code text => rfl
  | literal value => simp only [emptied, tokens, List.flatMap_cons, List.flatMap_nil, Token.blanked]

/-- What is left of segments without the contents of the literals does not depend on these. -/
theorem blanked_eq_of_emptied_eq {segments others : List Segment}
    (h : segments.map emptied = others.map emptied) :
    (segments.flatMap tokens).flatMap Token.blanked =
      (others.flatMap tokens).flatMap Token.blanked := by
  have hemptied (segments : List Segment) : (segments.flatMap tokens).flatMap Token.blanked =
      (segments.map emptied).flatMap fun segment => segment.tokens.flatMap Token.blanked := by
    rw [List.flatMap_assoc, List.flatMap_map]
    exact congrArg (List.flatMap · segments) (funext fun segment => (blanked_emptied segment).symm)
  rw [hemptied, hemptied, h]

end Blanks

end Segment

namespace Program

section Lines

variable {lines others : List String}

/-- Lines that are code at both ends. -/
def LinesOfCode (lines : List String) : Prop :=
  ∀ line ∈ lines, EndsInCode (line.toList ++ ['\n'])

theorem linesOfCode_nil : LinesOfCode [] := List.forall_mem_nil _

/-- A line that is given by its characters does not have to be decoded. -/
theorem linesOfCode_cons {chars : List Char} (hchars : EndsInCode (chars ++ ['\n']))
    (hlines : LinesOfCode lines) : LinesOfCode (String.ofList chars :: lines) := by
  rw [LinesOfCode, List.forall_mem_cons, String.toList_ofList]
  exact ⟨hchars, hlines⟩

theorem LinesOfCode.of_subset (h : LinesOfCode lines) (hothers : others ⊆ lines) :
    LinesOfCode others :=
  fun line hline => h line (hothers hline)

theorem LinesOfCode.endsInCode (h : LinesOfCode lines) : EndsInCode (asLines lines).toList := by
  induction lines with
  | nil => exact endsInCode_of_scan? rfl
  | cons line lines ih =>
      rw [LinesOfCode, List.forall_mem_cons] at h
      rw [toList_asLines, List.flatMap_cons, ← toList_asLines]
      exact h.1.append (ih h.2)

/-- Every line of the program for empty paths and no symbols is code at both ends. -/
theorem linesOfCode_bare : LinesOfCode (sourceLines ⟨"", []⟩ "") := by
  have hquoted : quoted "" = "\"\"" := by decide
  simp only [sourceLines, importLines, entriesOpening, mainLines, signatureLines, typeLines,
    sentinel, packageAlias, hquoted, String.reduceAppend, List.map_nil, List.append_nil,
    List.cons_append, List.nil_append]
  repeat' with_reducible first
    | exact linesOfCode_nil
    | apply linesOfCode_cons
  all_goals decide +kernel

end Lines

section Parts

open Segment

theorem isInert_of_isWordChar {c : Char} (h : isWordChar c) : isInert c := by
  have hnot (d : Char) (hd : isWordChar d = false) : c ≠ d := by
    rintro rfl
    rw [hd] at h
    cases h
  simp [isInert, hnot '\"' (by decide), hnot '/' (by decide), hnot '\x60' (by decide),
    hnot '\x27' (by decide)]

theorem endsInCode_opening : EndsInCode opening.toList := by
  have hlines : LinesOfCode ((importLines "" "").take 10) :=
    linesOfCode_bare.of_subset fun line hline => by
      simp [sourceLines, List.mem_of_mem_take hline]
  rw [opening, String.toList_append]
  exact hlines.endsInCode.append (by decide)

theorem endsInCode_entriesGap : EndsInCode entriesGap.toList := by
  have hlines : LinesOfCode (")" :: entriesOpening) :=
    linesOfCode_bare.of_subset fun line hline => by
      rcases List.mem_cons.1 hline with rfl | hline
      · simp [sourceLines, importLines]
      · simp [sourceLines, hline]
  rw [entriesGap, String.toList_append]
  exact EndsInCode.append (by decide) hlines.endsInCode

theorem endsInCode_nameOpening : EndsInCode nameOpening.toList := by
  have hlines : LinesOfCode ((mainLines "").take 5) :=
    linesOfCode_bare.of_subset fun line hline => by
      simp [sourceLines, List.mem_of_mem_take hline]
  rw [nameOpening, String.toList_append]
  exact hlines.endsInCode.append (by decide)

theorem endsInCode_closing : EndsInCode closing.toList := by
  have hlines : LinesOfCode ((mainLines "").drop 6 ++ signatureLines ++ typeLines) :=
    linesOfCode_bare.of_subset fun line hline => by
      rw [List.mem_append, List.mem_append] at hline
      rcases hline with (hline | hline) | hline
      · simp [sourceLines, List.mem_of_mem_drop hline]
      · simp [sourceLines, hline]
      · simp [sourceLines, hline]
  rw [closing, String.toList_append]
  exact EndsInCode.append (by decide) hlines.endsInCode

theorem endsInCode_selector {symbol : String} (h : IsIdentifier symbol) :
    EndsInCode (selectorOpening ++ symbol ++ entryClosing).toList := by
  have hsymbol : EndsInCode symbol.toList :=
    endsInCode_of_inert fun c hc => isInert_of_isWordChar (h.isWordChar c hc)
  rw [String.toList_append, String.toList_append]
  exact (EndsInCode.append (by decide) hsymbol).append (by decide)

theorem closed_entrySegments {symbol : String} (h : IsIdentifier symbol) :
    ∀ segment ∈ entrySegments symbol, segment.Closed := by
  intro segment hsegment
  simp only [entrySegments, List.mem_cons, List.not_mem_nil, or_false] at hsegment
  rcases hsegment with rfl | rfl | rfl
  · exact closed_code (by decide)
  · exact closed_literal symbol
  · exact closed_code (endsInCode_selector h)

/-- Every segment of a program is cut into tokens on its own. -/
theorem closed_segments {request : ProbeRequest} {modelImport : String}
    (h : ∀ symbol ∈ request.symbols, IsIdentifier symbol) :
    ∀ segment ∈ segments request modelImport, segment.Closed := by
  intro segment hsegment
  simp only [segments, List.mem_append, List.mem_flatMap, List.mem_cons, List.not_mem_nil,
    or_false] at hsegment
  rcases hsegment with ((rfl | rfl | rfl | rfl | rfl) | ⟨symbol, hsymbol, hentry⟩) |
    rfl | rfl | rfl
  · exact closed_code endsInCode_opening
  · exact closed_literal _
  · exact closed_code (by decide)
  · exact closed_literal _
  · exact closed_code endsInCode_entriesGap
  · exact closed_entrySegments (h symbol hsymbol) segment hentry
  · exact closed_code endsInCode_nameOpening
  · exact closed_literal _
  · exact closed_code endsInCode_closing

/-- The tokens of a program are those of its segments. -/
theorem tokens?_program (request : ProbeRequest) (modelImport : String)
    (h : ∀ symbol ∈ request.symbols, IsIdentifier symbol) :
    tokens? (request.program modelImport).toList =
      some ((segments request modelImport).flatMap tokens) := by
  rw [← chars_segments]
  exact tokens?_of_scan? (scan?_of_closed (closed_segments h))

theorem emptied_segments (request : ProbeRequest) (modelImport : String) :
    (segments request modelImport).map emptied =
      (segments ⟨"", request.symbols⟩ "").map emptied := by
  simp only [segments, List.map_append, List.map_cons, List.map_nil, emptied]

end Parts

end Program

/-- A program with identifiers for symbols is cut into tokens segment by segment.  Each path, and
each symbol where it is a name, is one literal token at its place, which stands for it; literals are
on one line.  Without the contents of its literals the program is the one for empty paths. -/
theorem paths_stay_in_literals (request : ProbeRequest) (modelImport : String)
    (hsymbols : ∀ symbol ∈ request.symbols, IsIdentifier symbol) :
    ∃ tokens bare,
      tokens? (request.program modelImport).toList = some tokens ∧
      tokens? (ProbeRequest.program ⟨"", request.symbols⟩ "").toList = some bare ∧
      tokens.flatMap Token.blanked = bare.flatMap Token.blanked ∧
      tokens = (segments request modelImport).flatMap Segment.tokens ∧
      (segments request modelImport).flatMap Segment.chars =
        (request.program modelImport).toList ∧
      (segments request modelImport).filterMap Segment.literal? =
        modelImport :: request.importPath :: (request.symbols ++ [request.importPath]) ∧
      (∀ segment ∈ segments request modelImport,
        segment.tokens.flatMap Token.source = segment.chars) ∧
      ∀ source value, .literal source value ∈ tokens → '\n' ∉ source := by
  have htokens := tokens?_program request modelImport hsymbols
  refine ⟨_, _, htokens, tokens?_program ⟨"", request.symbols⟩ "" hsymbols, ?_, rfl,
    chars_segments request modelImport, literals_segments request modelImport, ?_, ?_⟩
  · exact Segment.blanked_eq_of_emptied_eq (emptied_segments request modelImport)
  · intro segment hsegment
    exact (closed_segments hsymbols segment hsegment).sources
  · intro source value hmem
    exact onOneLine_tokens? htokens _ hmem

/-- A path that would close its literal, and begin a comment, stays in it. -/
theorem hostile_path_stays_in_literals :
    (∀ symbol ∈ ["Fooer"], IsIdentifier symbol) ∧
      ∃ tokens bare,
        tokens? (ProbeRequest.program ⟨"a\"\n)//\\", ["Fooer"]⟩ "\x00").toList = some tokens ∧
        tokens? (ProbeRequest.program ⟨"", ["Fooer"]⟩ "").toList = some bare ∧
        tokens.flatMap Token.blanked = bare.flatMap Token.blanked := by
  have hsymbols : ∀ symbol ∈ ["Fooer"], IsIdentifier symbol := by decide +kernel
  obtain ⟨tokens, bare, htokens, hbare, hblanked, -⟩ :=
    paths_stay_in_literals ⟨"a\"\n)//\\", ["Fooer"]⟩ "\x00" hsymbols
  exact ⟨hsymbols, tokens, bare, htokens, hbare, hblanked⟩

end InterfaceProbe
