/-
# The methods that a table shows

Below its heading a table is a grid, and reading the grid by its columns gives back one row for each
method, in the order of the package, and one for each interface without methods.  All lines of the
grid are equally long, and their number is known.

Interface names, method names and signatures are required to be tidy.  The name of the package and
its imports stand above the grid, where each takes one line if it has no line feeds.
-/

import InterfaceProbe.Proofs.Report.GridReading
import InterfaceProbe.Report.Package
import Mathlib.Algebra.GroupWithZero.Nat

namespace InterfaceProbe

section Rows

variable {i : Interface} {package : Package}

/-- The names of the interface and of its methods are tidy, and so are the signatures, as they are
spelled away from any reading site. -/
structure Interface.IsTidy (i : Interface) : Prop where
  name : InterfaceProbe.IsTidy i.name
  methodNames : ∀ m ∈ i.methods, InterfaceProbe.IsTidy m.name
  signatures : ∀ m ∈ i.methods, InterfaceProbe.IsTidy (m.signature Qualifiers.none "")

/-- The names and the signatures of the package are tidy. -/
structure Package.IsTidy (package : Package) : Prop where
  name : InterfaceProbe.IsTidy package.name
  interfaces : ∀ i ∈ package.interfaces, i.IsTidy

theorem isTidy_empty : IsTidy "" := ⟨by simp, by simp, by simp⟩

/-- An interface has a row for each method, or one row if it has none. -/
theorem Interface.rows_eq (i : Interface) :
    i.rows = if i.methods.isEmpty then [[i.name, "", ""]]
      else i.methods.map fun m => [i.name, m.name, m.signature Qualifiers.none ""] := by
  cases h : i.methods <;> simp [Interface.rows, h]

theorem Interface.length_rows (i : Interface) : i.rows.length = max 1 i.methods.length := by
  cases h : i.methods <;> simp [Interface.rows, h]

theorem Interface.IsTidy.isTidyRow (h : i.IsTidy) {row : Grid.Row} (hrow : row ∈ i.rows) :
    Grid.IsTidyRow row ∧ row.length = 3 := by
  have hcells {second third : String} (hsecond : InterfaceProbe.IsTidy second)
      (hthird : InterfaceProbe.IsTidy third) : Grid.IsTidyRow [i.name, second, third] :=
    ⟨List.cons_ne_nil _ _, by simp [h.name, hsecond, hthird]⟩
  rw [i.rows_eq] at hrow
  split_ifs at hrow with hmethods
  · obtain rfl := List.mem_singleton.1 hrow
    exact ⟨hcells isTidy_empty isTidy_empty, rfl⟩
  · obtain ⟨m, hm, rfl⟩ := List.mem_map.1 hrow
    exact ⟨hcells (h.methodNames m hm) (h.signatures m hm), rfl⟩

theorem isTidyRow_tableHeading : Grid.IsTidyRow Package.tableHeading :=
  ⟨List.cons_ne_nil _ _, by decide⟩

theorem Package.IsTidy.isTidyRow (h : package.IsTidy) :
    ∀ row ∈ Package.tableHeading :: package.rows, Grid.IsTidyRow row ∧ row.length = 3 := by
  refine List.forall_mem_cons.2 ⟨⟨isTidyRow_tableHeading, rfl⟩, fun row hrow => ?_⟩
  obtain ⟨i, hi, hrow⟩ := List.mem_flatMap.1 hrow
  exact (h.interfaces i hi).isTidyRow hrow

theorem Package.length_rows (package : Package) :
    package.rows.length = (package.interfaces.map fun i => max 1 i.methods.length).sum := by
  rw [Package.rows, List.length_flatMap, List.map_congr_left fun i _ => i.length_rows]

end Rows

section Heading

variable {colour : Bool} {package : Package}

theorem noLineFeed_emphasised {emphasis : Emphasis} {text : String} (h : '\n' ∉ text.toList) :
    '\n' ∉ (emphasised colour emphasis text).toList := by
  cases colour <;> cases emphasis <;> simp [emphasised, h]

theorem Package.importsLine_eq (colour : Bool) (package : Package) :
    package.importsLine colour = if package.imports = [] then []
      else [emphasised colour .title "imports" ++ " " ++ separated ", " package.imports] := by
  rw [Package.importsLine]
  split <;> simp_all

/-- No line above the grid goes on behind a line feed. -/
theorem Package.IsTidy.noLineFeed_heading (h : package.IsTidy) (colour : Bool)
    (himports : ∀ path ∈ package.imports, '\n' ∉ path.toList) :
    ∀ line ∈ (emphasised colour .title "package" ++ " " ++ package.name) ::
      package.importsLine colour, '\n' ∉ line.toList := by
  have hpaths : '\n' ∉ (separated ", " package.imports).toList :=
    not_mem_separated (by decide) himports
  refine List.forall_mem_cons.2 ⟨?_, fun line hline => ?_⟩
  · simp [noLineFeed_emphasised, h.name.noLineFeed]
  · rw [Package.importsLine_eq] at hline
    split_ifs at hline with hnone
    · cases hline
    · obtain rfl := List.mem_singleton.1 hline
      simp [noLineFeed_emphasised, hpaths]

end Heading

/-- A table shows every method and nothing else.  Below the line with the package name, and the one
with the imports if there are any, there is a grid with three lines and two more for each row.  Its
lines are equally long, and reading it by its columns gives, below the heading, one row for each
method and one for each interface without methods, in their order. -/
theorem table_shows_every_method (package : Package) (colour : Bool) (htidy : package.IsTidy) :
    ∃ heading grid : List String,
      heading = (emphasised colour .title "package" ++ " " ++ package.name) ::
        (if package.imports = [] then []
          else [emphasised colour .title "imports" ++ " " ++ separated ", " package.imports]) ∧
      package.tableReport colour = asLines (heading ++ grid) ∧
      ((∀ path ∈ package.imports, '\n' ∉ path.toList) →
        pieces '\n' (package.tableReport colour) = heading ++ grid ++ [""]) ∧
      (∀ line ∈ grid, '\n' ∉ line.toList) ∧
      grid.length = 3 + 2 * (package.interfaces.map fun i => max 1 i.methods.length).sum ∧
      (∃ width, ∀ line ∈ grid, line.length = width) ∧
      Grid.read grid = ["interface", "method", "signature"] ::
        package.interfaces.flatMap fun i =>
          if i.methods.isEmpty then [[i.name, "", ""]]
          else i.methods.map fun m => [i.name, m.name, m.signature Qualifiers.none ""] := by
  have hrows : ∀ row ∈ Package.tableHeading :: package.rows, Grid.IsTidyRow row :=
    fun row hrow => (htidy.isTidyRow row hrow).1
  have hthree : ∀ row ∈ Package.tableHeading :: package.rows, row.length = 3 :=
    fun row hrow => (htidy.isTidyRow row hrow).2
  have hgrid : ∀ line ∈ Grid.lines (Package.tableHeading :: package.rows), '\n' ∉ line.toList :=
    fun _ => Grid.noLineFeed_of_mem_lines hrows hthree
  rw [← Package.importsLine_eq]
  refine ⟨_, Grid.lines (Package.tableHeading :: package.rows), rfl, rfl, fun himports => ?_, hgrid,
    ?_, ⟨_, fun _ => Grid.length_of_mem_lines hrows hthree⟩, ?_⟩
  · have hheading := htidy.noLineFeed_heading colour himports
    exact (pieces_asLines _).trans <| congrArg (· ++ [""]) <|
      flatMap_pieces_of_not_mem (List.forall_mem_append.2 ⟨hheading, hgrid⟩)
  · rw [Grid.length_lines hrows, List.length_cons, package.length_rows]
    omega
  · rw [Grid.read_lines hrows hthree, Package.rows, List.flatMap_congr fun i _ => i.rows_eq]
    rfl

section Sample

/-- A package whose names have the characters of rules and bars, with an interface without
methods. -/
def ruledPackage : Package where
  name := "ruled"
  interfaces :=
    [⟨"A|B", [⟨"+--+", [⟨"x", .named (some "p/q") "T"⟩], [], none⟩, ⟨"- | -", [], [], none⟩]⟩,
      ⟨"|", []⟩]

theorem isTidy_ruledPackage : ruledPackage.IsTidy := by
  refine ⟨by decide, ?_⟩
  rw [ruledPackage, List.forall_mem_cons, List.forall_mem_singleton]
  exact ⟨⟨by decide, by decide, by decide⟩, ⟨by decide, by decide, by decide⟩⟩

theorem table_shows_every_method_of_ruledPackage :
    ruledPackage.IsTidy ∧ ∃ grid : List String,
      pieces '\n' (ruledPackage.tableReport false) =
        ["package ruled", "imports p/q"] ++ grid ++ [""] ∧
      grid.length = 9 ∧
      Grid.read grid =
        [["interface", "method", "signature"], ["A|B", "+--+", "(x q.T)"],
          ["A|B", "- | -", "()"], ["|", "", ""]] := by
  obtain ⟨heading, grid, hheading, -, hpieces, -, hlength, -, hread⟩ :=
    table_shows_every_method ruledPackage false isTidy_ruledPackage
  have himports : ruledPackage.imports = ["p/q"] := by decide
  rw [himports] at hheading hpieces
  have hruled : heading = ["package ruled", "imports p/q"] := hheading.trans (by decide)
  refine ⟨isTidy_ruledPackage, grid, ?_, hlength, hread.trans (by decide)⟩
  rw [hpieces (by decide), hruled]

end Sample

end InterfaceProbe
