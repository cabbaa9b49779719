/-
# Where the request stands in a program

A program is the same text for every request but for the two paths and the
entries.  The model import stands in one place; the import path stands in the
clause of the imports and in the argument that gives the report its name.  All
of these are literals.  An entry has its symbol as a literal and a second time,
as it is, for the selector.
-/

import InterfaceProbe.Probe.Program

namespace InterfaceProbe

/-- A segment of the text of a program: code, or the literal of a text. -/
inductive Segment
  /-- Text as it is. -/
  | code (text : String)
  /-- The literal of a text. -/
  | literal (value : String)
  deriving DecidableEq, Repr

/-- The characters of a segment. -/
def Segment.chars : Segment → List Char
  | .code text => text.toList
  | .literal value => (quoted value).toList

/-- The text of a literal. -/
def Segment.literal? : Segment → Option String
  | .code _ => none
  | .literal value => some value

namespace Program

section Texts

/-- What stands in front of the model import. -/
def opening : String := asLines ((importLines "" "").take 10) ++ "\tmodel "

/-- What stands between the imports. -/
def importGap : String := "\n" ++ asLines [""] ++ "\t" ++ packageAlias ++ " "

/-- What stands between the imports and the entries. -/
def entriesGap : String := "\n" ++ asLines (")" :: entriesOpening)

/-- What stands in front of the name of an entry. -/
def entryOpening : String := "\t\t\x7b "

/-- What stands between the name of an entry and its selector. -/
def selectorOpening : String := ", reflect.TypeOf((*" ++ packageAlias ++ "."

/-- What stands behind the selector of an entry. -/
def entryClosing : String := ")(nil)).Elem()\x7d," ++ "\n"

/-- What stands between the entries and the name of the report. -/
def nameOpening : String := asLines ((mainLines "").take 5) ++ "\t\tName: path.Base("

/-- What stands behind the name of the report. -/
def closing : String :=
  ")," ++ "\n" ++ asLines ((mainLines "").drop 6 ++ signatureLines ++ typeLines)

end Texts

/-- The segments of an entry. -/
def entrySegments (symbol : String) : List Segment :=
  [.code entryOpening, .literal symbol, .code (selectorOpening ++ symbol ++ entryClosing)]

/-- The segments of a program. -/
def segments (request : ProbeRequest) (modelImport : String) : List Segment :=
  [.code opening, .literal modelImport, .code importGap, .literal request.importPath,
    .code entriesGap] ++
  request.symbols.flatMap entrySegments ++
  [.code nameOpening, .literal request.importPath, .code closing]

section Splitting

variable (request : ProbeRequest) (modelImport importPath symbol : String)

theorem toList_asLines (lines : List String) :
    (asLines lines).toList = lines.flatMap fun line => line.toList ++ ['\n'] := by
  induction lines with
  | nil => rfl
  | cons line rest ih => simp [asLines, ih]

/-- The lines of the imports, split at the paths. -/
theorem importLines_eq :
    importLines importPath modelImport = (importLines "" "").take 10 ++
      ["\tmodel " ++ quoted modelImport, "", "\t" ++ packageAlias ++ " " ++ quoted importPath,
        ")"] :=
  rfl

/-- The lines behind the entries, split at the path. -/
theorem mainLines_eq :
    mainLines importPath = (mainLines "").take 5 ++
      ("\t\tName: path.Base(" ++ quoted importPath ++ "),") :: (mainLines "").drop 6 :=
  rfl

theorem chars_entrySegments :
    (entrySegments symbol).flatMap Segment.chars = (entryLine symbol).toList ++ ['\n'] := by
  have hline : entryLine symbol ++ "\n" =
      entryOpening ++ quoted symbol ++ (selectorOpening ++ symbol ++ entryClosing) := by
    unfold entryLine entryOpening selectorOpening entryClosing
    simp only [String.append_assoc]
  have hsegments : (entrySegments symbol).flatMap Segment.chars =
      (entryLine symbol ++ "\n").toList := by
    rw [hline]
    simp only [entrySegments, Segment.chars, List.flatMap_cons, List.flatMap_nil, List.append_nil,
      String.toList_append, List.append_assoc]
  rw [hsegments, String.toList_append]
  simp only [String.reduceToList]

theorem chars_entries (symbols : List String) :
    (symbols.flatMap entrySegments).flatMap Segment.chars =
      (asLines (symbols.map entryLine)).toList := by
  rw [toList_asLines, List.flatMap_map, List.flatMap_assoc]
  exact congrArg (List.flatMap · symbols) (funext chars_entrySegments)

/-- A program, cut where the request stands in it. -/
theorem toList_program :
    (request.program modelImport).toList =
      opening.toList ++ ((quoted modelImport).toList ++ (importGap.toList ++
        ((quoted request.importPath).toList ++ (entriesGap.toList ++
          ((request.symbols.flatMap entrySegments).flatMap Segment.chars ++ (nameOpening.toList ++
            ((quoted request.importPath).toList ++ closing.toList))))))) := by
  have hprogram : request.program modelImport =
      opening ++ (quoted modelImport ++ (importGap ++ (quoted request.importPath ++ (entriesGap ++
        (asLines (request.symbols.map entryLine) ++ (nameOpening ++ (quoted request.importPath ++
          closing))))))) := by
    rw [ProbeRequest.program, sourceLines, importLines_eq, mainLines_eq]
    simp only [opening, importGap, entriesGap, nameOpening, closing, asLines_append, asLines,
      String.append_assoc, String.empty_append]
  rw [hprogram, chars_entries]
  simp only [String.toList_append]

/-- The segments of a program are the program. -/
theorem chars_segments :
    (segments request modelImport).flatMap Segment.chars =
      (request.program modelImport).toList := by
  rw [toList_program, segments]
  simp only [List.flatMap_append, List.flatMap_cons, List.flatMap_nil, List.append_nil,
    List.append_assoc, Segment.chars]

/-- The literals of a program, the fixed ones apart. -/
theorem literals_segments :
    (segments request modelImport).filterMap Segment.literal? =
      modelImport :: request.importPath :: (request.symbols ++ [request.importPath]) := by
  have hentries : (request.symbols.flatMap entrySegments).filterMap Segment.literal? =
      request.symbols := by
    rw [List.filterMap_flatMap]
    exact List.flatMap_singleton' request.symbols
  rw [segments, List.filterMap_append, List.filterMap_append, hentries]
  rfl

end Splitting

end Program

end InterfaceProbe
