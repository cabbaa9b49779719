/-
# Symbols and the arguments that hold them

The symbols of a request come from all arguments behind the import path, each of them cut at
commas.  So it does not matter how the pieces are spread over arguments, and neither do blanks
around a piece or pieces without anything else.  What comes out are symbols: something without
commas and without blanks at its ends.  Symbols that are given come out as they are, and a program
has one entry for each.

Nothing is said of the order of options and other arguments: a command line counts by what its
arguments behind the import path are.
-/

import InterfaceProbe.Proofs.CommandLine.Delivery
import InterfaceProbe.Proofs.Probe.Recovery
import InterfaceProbe.Proofs.Text.Joined
import InterfaceProbe.Proofs.Text.Trimming

namespace InterfaceProbe

/-- A text that is a symbol as it is: something without commas and without blanks at its ends. -/
structure IsSymbol (text : String) : Prop where
  ne_empty : text ≠ ""
  noComma : ',' ∉ text.toList
  head : ∀ c ∈ text.toList.head?, isBlank c = false
  last : ∀ c ∈ text.toList.getLast?, isBlank c = false

theorem isSymbol_iff {text : String} :
    IsSymbol text ↔ text ≠ "" ∧ ',' ∉ text.toList ∧ withoutBlanks text = text := by
  constructor
  · intro h
    exact ⟨h.ne_empty, h.noComma, withoutBlanks_of_trimmed (trimmed_self h.head h.last)⟩
  · rintro ⟨hne, hcomma, htrimmed⟩
    have htext := trimmed_withoutBlanks text
    rw [htrimmed] at htext
    exact ⟨hne, hcomma, htext.head, htext.last⟩

instance : DecidablePred IsSymbol := fun _ => decidable_of_iff' _ isSymbol_iff

/-- The second list has the pieces of the first in their order, with blanks around them, and between
them further pieces in which there are only blanks. -/
inductive WithBlanks : List String → List String → Prop
  | nil : WithBlanks [] []
  | piece {front text back : String} {plain spaced : List String}
      (hfront : ∀ c ∈ front.toList, isBlank c = true)
      (hback : ∀ c ∈ back.toList, isBlank c = true) :
      WithBlanks plain spaced → WithBlanks (text :: plain) ((front ++ text ++ back) :: spaced)
  | blank {text : String} {plain spaced : List String}
      (htext : ∀ c ∈ text.toList, isBlank c = true) :
      WithBlanks plain spaced → WithBlanks plain (text :: spaced)

/-- The symbols among pieces. -/
def symbolsAmong (pieces : List String) : List String :=
  (pieces.map withoutBlanks).filter fun symbol => !symbol.isEmpty

section Pieces

variable {plain spaced pieces symbols : List String}

theorem symbolsAmong_append (first second : List String) :
    symbolsAmong (first ++ second) = symbolsAmong first ++ symbolsAmong second := by
  rw [symbolsAmong, List.map_append, List.filter_append]
  rfl

theorem symbolsAmong_cons (text : String) (pieces : List String) :
    symbolsAmong (text :: pieces) =
      (if withoutBlanks text = "" then [] else [withoutBlanks text]) ++ symbolsAmong pieces := by
  by_cases h : withoutBlanks text = "" <;> simp [symbolsAmong, h]

/-- Blanks around pieces and blank pieces make no difference. -/
theorem WithBlanks.symbolsAmong_eq (h : WithBlanks plain spaced) :
    symbolsAmong spaced = symbolsAmong plain := by
  induction h with
  | nil => rfl
  | @piece front text back plain spaced hfront hback _ ih =>
      have htrim : withoutBlanks (front ++ text ++ back) = withoutBlanks text := by
        apply withoutBlanks_of_trimmed
        rw [String.append_assoc, String.toList_append, String.toList_append]
        exact (trimmed_withoutBlanks text).around hfront hback
      rw [symbolsAmong_cons, symbolsAmong_cons, htrim, ih]
  | @blank text plain spaced htext _ ih =>
      rw [symbolsAmong_cons, if_pos (withoutBlanks_of_trimmed (trimmed_nil htext)), ih,
        List.nil_append]

theorem WithBlanks.noComma (h : WithBlanks plain spaced)
    (hplain : ∀ text ∈ plain, ',' ∉ text.toList) : ∀ text ∈ spaced, ',' ∉ text.toList := by
  have hblank : ∀ {text : String}, (∀ c ∈ text.toList, isBlank c = true) → ',' ∉ text.toList :=
    fun htext hcomma => absurd (htext ',' hcomma) (by decide)
  induction h with
  | nil => exact hplain
  | piece hfront hback _ ih =>
      obtain ⟨htext, hrest⟩ := List.forall_mem_cons.1 hplain
      refine List.forall_mem_cons.2 ⟨?_, ih hrest⟩
      simp only [String.toList_append, List.mem_append, not_or]
      exact ⟨⟨hblank hfront, htext⟩, hblank hback⟩
  | blank htext _ ih => exact List.forall_mem_cons.2 ⟨hblank htext, ih hplain⟩

/-- What is left of a piece without commas is a symbol. -/
theorem isSymbol_of_mem_symbolsAmong (hpieces : ∀ text ∈ pieces, ',' ∉ text.toList) :
    ∀ symbol ∈ symbolsAmong pieces, IsSymbol symbol := by
  intro symbol hsymbol
  obtain ⟨hkept, hempty⟩ := List.mem_filter.1 hsymbol
  obtain ⟨text, htext, rfl⟩ := List.mem_map.1 hkept
  have htrimmed := trimmed_withoutBlanks text
  refine ⟨by simpa using hempty, fun hcomma => ?_, htrimmed.head, htrimmed.last⟩
  obtain ⟨front, back, -, -, hsplit⟩ := htrimmed.split
  exact hpieces text htext (by simp [hsplit, hcomma])

theorem symbolsAmong_of_isSymbol (h : ∀ symbol ∈ symbols, IsSymbol symbol) :
    symbolsAmong symbols = symbols := by
  induction symbols with
  | nil => rfl
  | cons symbol rest ih =>
      obtain ⟨hsymbol, hrest⟩ := List.forall_mem_cons.1 h
      rw [symbolsAmong_cons, (isSymbol_iff.1 hsymbol).2.2, if_neg hsymbol.ne_empty, ih hrest,
        List.singleton_append]

end Pieces

section Arguments

variable {arguments symbols : List String} {groups : List (List String)}

theorem isSymbol_of_mem_symbolsOf : ∀ symbol ∈ symbolsOf arguments, IsSymbol symbol := by
  apply isSymbol_of_mem_symbolsAmong
  intro text htext
  obtain ⟨argument, -, hpiece⟩ := List.mem_flatMap.1 htext
  exact not_mem_of_mem_pieces hpiece

theorem symbolsOf_cons (argument : String) (arguments : List String) :
    symbolsOf (argument :: arguments) =
      symbolsAmong (pieces ',' argument) ++ symbolsOf arguments := by
  rw [symbolsOf, List.flatMap_cons]
  exact symbolsAmong_append _ _

/-- Joining the arguments with commas to a single one makes no difference. -/
theorem symbolsOf_joined (arguments : List String) :
    symbolsOf [separated "," arguments] = symbolsOf arguments := by
  cases arguments with
  | nil => decide
  | cons argument rest =>
      have hpieces : pieces ',' (separated "," (argument :: rest)) =
          (argument :: rest).flatMap (pieces ',') :=
        pieces_separated (List.cons_ne_nil argument rest)
      rw [symbolsOf_cons, hpieces]
      exact List.append_nil _

/-- Pieces without commas may be grouped into arguments in any way. -/
theorem symbolsOf_groups (h : ∀ text ∈ groups.flatten, ',' ∉ text.toList) :
    symbolsOf (groups.map (separated ",")) = symbolsAmong groups.flatten := by
  induction groups with
  | nil => rfl
  | cons group rest ih =>
      rw [List.flatten_cons, List.forall_mem_append] at h
      have hgroup : symbolsOf [separated "," group] = symbolsAmong group := by
        rw [symbolsOf_joined]
        exact congrArg symbolsAmong (flatMap_pieces_of_not_mem h.1)
      rw [symbolsOf_cons] at hgroup
      rw [List.map_cons, symbolsOf_cons, ih h.2, List.flatten_cons, symbolsAmong_append, ← hgroup]
      exact congrArg (· ++ _) (List.append_nil _).symm

/-- Arguments have pieces, and so has whatever those are grouped into. -/
theorem WithBlanks.ne_nil (h : WithBlanks (arguments.flatMap (pieces ',')) groups.flatten)
    (hne : arguments ≠ []) : groups ≠ [] := by
  rintro rfl
  obtain ⟨argument, hargument⟩ := List.exists_mem_of_ne_nil arguments hne
  have hnone : arguments.flatMap (pieces ',') = [] := by
    generalize arguments.flatMap (pieces ',') = plain at h
    cases h
    rfl
  exact pieces_ne_nil ',' argument (List.flatMap_eq_nil_iff.1 hnone argument hargument)

theorem symbolsOf_of_withBlanks (h : WithBlanks (arguments.flatMap (pieces ',')) groups.flatten) :
    symbolsOf (groups.map (separated ",")) = symbolsOf arguments := by
  have hplain : ∀ text ∈ arguments.flatMap (pieces ','), ',' ∉ text.toList := by
    intro text htext
    obtain ⟨argument, -, hpiece⟩ := List.mem_flatMap.1 htext
    exact not_mem_of_mem_pieces hpiece
  rw [symbolsOf_groups (h.noComma hplain), h.symbolsAmong_eq]
  rfl

/-- Symbols come out as they are. -/
theorem symbolsOf_of_isSymbol (h : ∀ symbol ∈ symbols, IsSymbol symbol) :
    symbolsOf symbols = symbols := by
  have hpieces := flatMap_pieces_of_not_mem fun symbol hsymbol => (h symbol hsymbol).noComma
  rw [symbolsOf, hpieces]
  exact symbolsAmong_of_isSymbol h

end Arguments

section CommandLines

variable {line arguments : List String}

/-- The command line can be read, and the arguments behind its import path are the given ones. -/
def NamesSymbolsBy (line arguments : List String) : Prop :=
  ∃ given importPath, takeArguments {} none line = .ok given ∧
    given.positional = importPath :: arguments

/-- The symbols of the request are the given ones, whatever the environment is. -/
def AsksFor (line symbols : List String) : Prop :=
  ∀ environment, ∃ options, CommandOptions.parse line environment = .ok options ∧
    options.request.symbols = symbols

/-- Whatever the arguments are, they can stand behind a double dash. -/
theorem namesSymbolsBy_separator (importPath : String) (arguments : List String) :
    NamesSymbolsBy ("--" :: importPath :: arguments) arguments :=
  ⟨_, _, rfl, rfl⟩

theorem asksFor_symbolsOf (h : NamesSymbolsBy line arguments) (hne : arguments ≠ []) :
    AsksFor line (symbolsOf arguments) := by
  intro environment
  obtain ⟨given, importPath, hgiven, hpositional⟩ := h
  obtain ⟨argument, rest, rfl⟩ := List.exists_cons_of_ne_nil hne
  have hparse : CommandOptions.parse line environment =
      CommandOptions.ofGiven given environment := by
    rw [CommandOptions.parse, hgiven]
    rfl
  rw [hparse, CommandOptions.ofGiven, hpositional]
  exact ⟨_, rfl, rfl⟩

theorem run_of_isSymbol (h : NamesSymbolsBy line arguments)
    (hsymbols : ∀ argument ∈ arguments, IsSymbol argument) {environment : Environment}
    {options : CommandOptions} (hoptions : CommandOptions.parse line environment = .ok options)
    (hreflect : options.reflect = { programOnly := true }) (host : Host) (site : Site) :
    ∃ source listing,
      ((⟨line, environment⟩ : Invocation).run host).run site =
        ({ exitStatus := 0, stdout := site.printed ++ utf8 source }, site) ∧
      Program.listing? source.toList = some listing ∧
      listing.entries = arguments.map fun symbol => (symbol, symbol) := by
  have hne : arguments ≠ [] := by
    rintro rfl
    obtain ⟨given, importPath, hgiven, hpositional⟩ := h
    rw [CommandOptions.parse, hgiven] at hoptions
    simp [bind, Except.bind, CommandOptions.ofGiven, hpositional] at hoptions
  obtain ⟨other, hother, hrequest⟩ := asksFor_symbolsOf h hne environment
  obtain rfl := Except.ok.inj (hother.symm.trans hoptions)
  refine ⟨_, _, Invocation.run_of_programOnly hoptions hreflect, Program.listing?_program _ _, ?_⟩
  rw [hrequest, symbolsOf_of_isSymbol hsymbols]

end CommandLines

/-- The symbols of a request do not depend on how they are spread over the arguments.  All of them
are symbols as they are.  The same ones are asked for when the arguments are joined with commas to a
single one, when their pieces are grouped into arguments in another way, with blanks around
them and blank pieces between them, and when they are given back, joined with commas.  Arguments
that are symbols come out as they are, and the program has one entry for each in their
order. -/
theorem symbols_independent_of_grouping (line arguments : List String)
    (hline : NamesSymbolsBy line arguments) (harguments : arguments ≠ []) :
    AsksFor line (symbolsOf arguments) ∧
      (∀ symbol ∈ symbolsOf arguments, IsSymbol symbol) ∧
      (∀ other, NamesSymbolsBy other [separated "," arguments] →
        AsksFor other (symbolsOf arguments)) ∧
      (∀ other (groups : List (List String)), NamesSymbolsBy other (groups.map (separated ",")) →
        WithBlanks (arguments.flatMap (pieces ',')) groups.flatten →
        AsksFor other (symbolsOf arguments)) ∧
      (∀ other, NamesSymbolsBy other [separated "," (symbolsOf arguments)] →
        AsksFor other (symbolsOf arguments)) ∧
      ((∀ argument ∈ arguments, IsSymbol argument) → symbolsOf arguments = arguments ∧
        ∀ environment options host site,
          CommandOptions.parse line environment = .ok options →
          options.reflect = { programOnly := true } →
          ∃ source listing,
            ((⟨line, environment⟩ : Invocation).run host).run site =
              ({ exitStatus := 0, stdout := site.printed ++ utf8 source }, site) ∧
            Program.listing? source.toList = some listing ∧
            listing.entries = arguments.map fun symbol => (symbol, symbol)) := by
  refine ⟨asksFor_symbolsOf hline harguments, isSymbol_of_mem_symbolsOf,
    fun other hother => ?_, fun other groups hother hgroups => ?_, fun other hother => ?_,
    fun hsymbols => ⟨symbolsOf_of_isSymbol hsymbols, fun environment options host site => ?_⟩⟩
  · rw [← symbolsOf_joined]
    exact asksFor_symbolsOf hother (List.cons_ne_nil _ _)
  · rw [← symbolsOf_of_withBlanks hgroups]
    exact asksFor_symbolsOf hother (mt List.map_eq_nil_iff.1 (hgroups.ne_nil harguments))
  · have hsymbols : ∀ symbol ∈ symbolsOf arguments, IsSymbol symbol := isSymbol_of_mem_symbolsOf
    rw [← symbolsOf_of_isSymbol hsymbols, ← symbolsOf_joined]
    exact asksFor_symbolsOf hother (List.cons_ne_nil _ _)
  · intro hoptions hreflect
    exact run_of_isSymbol hline hsymbols hoptions hreflect host site

section Sample

/-- Two arguments with blanks around their pieces. -/
def spacedArguments : List String := [" Reader ,\u3000Writer", "Closer"]

/-- Their pieces in three arguments, with more blanks and with blank pieces. -/
def regrouped : List (List String) := [[" Reader "], ["", "\t\u3000Writer\n"], ["Closer", " "]]

theorem withBlanks_regrouped :
    WithBlanks (spacedArguments.flatMap (pieces ',')) regrouped.flatten := by
  have hblank : ∀ {text : String}, text.toList.all isBlank = true →
      ∀ c ∈ text.toList, isBlank c = true := List.all_eq_true.1
  have hnone : ∀ c ∈ "".toList, isBlank c = true := hblank rfl
  have hcloser : WithBlanks ["Closer"] ["" ++ "Closer" ++ "", " "] :=
    .piece hnone hnone (.blank (hblank rfl) .nil)
  have hwriter : WithBlanks ["\u3000Writer", "Closer"]
      ["\t" ++ "\u3000Writer" ++ "\n", "" ++ "Closer" ++ "", " "] :=
    .piece (hblank rfl) (hblank rfl) hcloser
  have hreader : WithBlanks [" Reader ", "\u3000Writer", "Closer"]
      ["" ++ " Reader " ++ "", "", "\t" ++ "\u3000Writer" ++ "\n", "" ++ "Closer" ++ "", " "] :=
    .piece hnone hnone (.blank hnone hwriter)
  exact hreader

theorem symbols_independent_of_grouping_of_regrouped :
    (NamesSymbolsBy ("io" :: spacedArguments) spacedArguments ∧
      AsksFor ("io" :: spacedArguments) ["Reader", "Writer", "Closer"] ∧
      AsksFor ("--" :: "io" :: regrouped.map (separated ",")) ["Reader", "Writer", "Closer"] ∧
      AsksFor ["io", "Reader,Writer,Closer"] ["Reader", "Writer", "Closer"]) ∧
    ∃ source listing,
      ((⟨["--prog-only", "io", "Reader", "Writer"], []⟩ : Invocation).run reportingHost).run
        siteWithProbes = ({ exitStatus := 0, stdout := utf8 source }, siteWithProbes) ∧
      Program.listing? source.toList = some listing ∧
      listing.entries = [("Reader", "Reader"), ("Writer", "Writer")] := by
  have hline : NamesSymbolsBy ("io" :: spacedArguments) spacedArguments := ⟨_, _, rfl, rfl⟩
  have hsymbols : symbolsOf spacedArguments = ["Reader", "Writer", "Closer"] := by decide
  obtain ⟨hasks, -, -, hgroups, hback, -⟩ :=
    symbols_independent_of_grouping _ spacedArguments hline (List.cons_ne_nil _ _)
  rw [hsymbols] at hasks hgroups hback
  refine ⟨⟨hline, hasks, hgroups _ regrouped (namesSymbolsBy_separator "io" _)
    withBlanks_regrouped, hback _ ⟨_, _, rfl, rfl⟩⟩, ?_⟩
  obtain ⟨-, -, -, -, -, hprogram⟩ := symbols_independent_of_grouping
    ["--prog-only", "io", "Reader", "Writer"] ["Reader", "Writer"] ⟨_, _, rfl, rfl⟩
    (List.cons_ne_nil _ _)
  have hclean : ∀ argument ∈ ["Reader", "Writer"], IsSymbol argument := by decide
  exact (hprogram hclean).2 [] _ reportingHost siteWithProbes rfl rfl

end Sample

end InterfaceProbe
