/-
# Package reports

A package is shown to the user as indented JSON in its wire form, or as a table
with one row for each method.  An interface without methods has a row of its
own, with nothing in the other columns.  Signatures in the table are spelled
away from any reading site.
-/

import InterfaceProbe.Json.Printer
import InterfaceProbe.Model.Imports
import InterfaceProbe.Model.Spelling
import InterfaceProbe.Report.Grid
import InterfaceProbe.Wire.Writer

namespace InterfaceProbe

/-- How terminal text is emphasised. -/
inductive Emphasis
  | title | failure
  deriving DecidableEq, Repr

/-- Bold cyan for titles and bold red for failures, or no emphasis at all. -/
def emphasised (colour : Bool) (emphasis : Emphasis) (text : String) : String :=
  match colour, emphasis with
  | false, _ => text
  | true, .title => "\x1b[1;36m" ++ text ++ "\x1b[0m"
  | true, .failure => "\x1b[1;31m" ++ text ++ "\x1b[0m"

namespace Interface

/-- The table rows of an interface. -/
def rows (i : Interface) : List Grid.Row :=
  match i.methods with
  | [] => [[i.name, "", ""]]
  | methods => methods.map fun m => [i.name, m.name, m.signature Qualifiers.none ""]

end Interface

namespace Package

/-- The indented wire form on lines of its own. -/
def jsonReport (p : Package) : String := p.toJson.indented 0 ++ "\n"

/-- The heading of the table. -/
def tableHeading : Grid.Row := ["interface", "method", "signature"]

/-- The table rows of a package, without the heading. -/
def rows (p : Package) : List Grid.Row := p.interfaces.flatMap Interface.rows

/-- The line that lists the imports, unless there are none. -/
def importsLine (colour : Bool) (p : Package) : List String :=
  match p.imports with
  | [] => []
  | imports => [emphasised colour .title "imports" ++ " " ++ separated ", " imports]

/-- The package name, the imports and the methods as a table. -/
def tableReport (colour : Bool) (p : Package) : String :=
  asLines ([emphasised colour .title "package" ++ " " ++ p.name] ++ p.importsLine colour ++
    Grid.lines (tableHeading :: p.rows))

end Package

end InterfaceProbe
