/-
# Reading a grid by its columns

The first line of a grid is its border, and the corners of the border tell where the columns
are.  Every other kind of line is read by position: what stands between two neighbouring corners,
without the blanks around it, is a cell.  So cells may have any of the characters that
rules and bars are made of.

Cells are required to be tidy: printable ASCII characters, with no blank at either
end.  Such a cell takes one line and as many columns as it has characters.
-/

import InterfaceProbe.Proofs.Text.Joined
import InterfaceProbe.Proofs.Text.Trimming
import InterfaceProbe.Report.Grid
import Mathlib.Data.List.Forall2

namespace InterfaceProbe

/-- A text of printable ASCII characters without blanks at its ends. -/
structure IsTidy (text : String) : Prop where
  printable : ∀ c ∈ text.toList, 0x20 ≤ c.toNat ∧ c.toNat < 0x7F
  head : ∀ c ∈ text.toList.head?, (c == ' ') = false
  last : ∀ c ∈ text.toList.getLast?, (c == ' ') = false

theorem isTidy_iff {text : String} : IsTidy text ↔
    (text.toList.all fun c => 0x20 ≤ c.toNat && c.toNat < 0x7F) = true ∧
      trimChars (· == ' ') text.toList = text.toList := by
  rw [← trimmed_iff, List.all_eq_true]
  constructor
  · intro h
    exact ⟨by simpa using h.printable, trimmed_self h.head h.last⟩
  · rintro ⟨hprintable, htrimmed⟩
    exact ⟨by simpa using hprintable, htrimmed.head, htrimmed.last⟩

-- through the iff, since the quantifier may be decided by trying every character that there is
instance : DecidablePred IsTidy := fun _ => decidable_of_iff' _ isTidy_iff

namespace IsTidy

variable {text : String}

theorem charWidth_eq (h : IsTidy text) {c : Char} (hc : c ∈ text.toList) : charWidth c = 1 := by
  obtain ⟨hlow, hhigh⟩ := h.printable c hc
  rw [charWidth, if_neg (Nat.not_lt.2 hlow), if_pos hhigh]

/-- A tidy text is as wide as it is long. -/
theorem textWidth_eq (h : IsTidy text) : textWidth text.toList = text.length := by
  rw [textWidth, List.map_congr_left fun c hc => h.charWidth_eq hc, ← String.length_toList]
  induction text.toList with
  | nil => rfl
  | cons c rest ih => rw [List.map_cons, List.foldr_cons, ih, List.length_cons, Nat.add_comm]

theorem noLineFeed (h : IsTidy text) : '\n' ∉ text.toList :=
  fun hc => absurd (h.printable '\n' hc).1 (by decide)

theorem cellLines_eq (h : IsTidy text) : Grid.cellLines text = [text] :=
  pieces_of_not_mem h.noLineFeed

theorem cellWidth_eq (h : IsTidy text) : Grid.cellWidth text = text.length := by
  rw [Grid.cellWidth, h.cellLines_eq, List.map_singleton, h.textWidth_eq]
  exact Nat.max_zero _

end IsTidy

namespace Grid

section Reading

/-- The columns in which a border has its corners. -/
def corners (border : String) : List Nat := border.toList.idxsOf '+'

/-- The text between two columns of a line, without the blanks at its ends. -/
def between (line : String) (left right : Nat) : String :=
  String.ofList (trimChars (· == ' ') ((line.toList.take right).drop (left + 1)))

/-- The cells of a line, cut at the corners of a border. -/
def cellsUnder (border line : String) : Row :=
  ((corners border).zip (corners border).tail).map fun (left, right) => between line left right

/-- The rows of a grid: the lines that differ from the border, which is the first of its lines. -/
def read : List String → List Row
  | [] => []
  | border :: rest => (rest.filter (· ≠ border)).map (cellsUnder border)

end Reading

section Widths

variable {row : Row} {rows : List Row} {widths : List Nat} {n : Nat}

/-- Every cell of the row has room in its column. -/
abbrev HasRoom (row : Row) (widths : List Nat) : Prop :=
  List.Forall₂ (fun cell width => cellWidth cell ≤ width) row widths

theorem hasRoom_cellWidths (row : Row) : HasRoom row (row.map cellWidth) := by
  rw [HasRoom, List.forall₂_map_right_iff, List.forall₂_same]
  exact fun cell _ => le_refl (cellWidth cell)

theorem hasRoom_widen (h : row.length = widths.length) : HasRoom row (widen row widths) := by
  induction row generalizing widths with
  | nil =>
      obtain rfl := List.length_eq_zero_iff.1 h.symm
      exact .nil
  | cons cell row ih =>
      cases widths with
      | nil => cases h
      | cons width widths => exact .cons (Nat.le_max_left _ _) (ih (Nat.succ.inj h))

/-- Who has room keeps it when the columns are widened. -/
theorem HasRoom.widen {other : Row} (h : HasRoom row widths)
    (hother : other.length = widths.length) : HasRoom row (widen other widths) := by
  induction h generalizing other with
  | nil =>
      obtain rfl := List.length_eq_zero_iff.1 hother
      exact .nil
  | cons hcell _ ih =>
      cases other with
      | nil => cases hother
      | cons otherCell other =>
          exact .cons (Nat.le_trans hcell (Nat.le_max_right _ _)) (ih (Nat.succ.inj hother))

/-- Every row of a grid whose rows are equally long has room in its columns. -/
theorem hasRoom_columnWidths (hrows : ∀ row ∈ rows, row.length = n) :
    ∀ row ∈ rows, HasRoom row (columnWidths rows) := by
  induction rows with
  | nil => exact List.forall_mem_nil _
  | cons first rest ih =>
      obtain ⟨hfirst, hrest⟩ := List.forall_mem_cons.1 hrows
      cases rest with
      | nil =>
          rw [List.forall_mem_singleton]
          cases first with
          | nil => exact .nil
          | cons cell row => exact hasRoom_cellWidths (cell :: row)
      | cons second rest =>
          have hroom := ih hrest
          have hlength : first.length = (columnWidths (second :: rest)).length := by
            rw [hfirst, ← (hroom second List.mem_cons_self).length_eq,
              hrest second List.mem_cons_self]
          exact List.forall_mem_cons.2 ⟨hasRoom_widen hlength,
            fun row hrow => (hroom row hrow).widen hlength⟩

end Widths

section Lines

variable {row : Row} {widths : List Nat} {text line : String} {width start : Nat}

/-- Every cell of the row is tidy and has room in its column. -/
abbrev FitsTidily (row : Row) (widths : List Nat) : Prop :=
  List.Forall₂ (fun cell width => IsTidy cell ∧ cell.length ≤ width) row widths

theorem HasRoom.fitsTidily (h : HasRoom row widths) (htidy : ∀ cell ∈ row, IsTidy cell) :
    FitsTidily row widths := by
  apply ((List.forall₂_and_left _ _).2 ⟨htidy, h⟩).imp
  rintro cell width ⟨hcell, hwidth⟩
  exact ⟨hcell, hcell.cellWidth_eq ▸ hwidth⟩

/-- A cell as it stands between two bars. -/
def spaced (width : Nat) (text : String) : List Char :=
  ' ' :: (text.toList ++ (List.replicate (width - textWidth text.toList) ' ' ++ [' ']))

theorem length_spaced (h : IsTidy text) (hroom : text.length ≤ width) :
    (spaced width text).length = width + 2 := by
  simp only [spaced, h.textWidth_eq, List.length_cons, List.length_append, List.length_replicate,
    List.length_nil, String.length_toList]
  omega

theorem trimChars_spaced (h : IsTidy text) (width : Nat) :
    trimChars (· == ' ') (spaced width text) = text.toList := by
  have hfront : ∀ c ∈ [' '], (c == ' ') = true := by simp
  have hback : ∀ c ∈ List.replicate (width - textWidth text.toList) ' ' ++ [' '],
      (c == ' ') = true := by
    rintro c hc
    rcases List.mem_append.1 hc with hc | hc
    · simp [List.eq_of_mem_replicate hc]
    · simp [List.mem_singleton.1 hc]
  exact trimmed_iff.1 ((trimmed_self h.head h.last).around hfront hback)

theorem toList_rule (widths : List Nat) :
    (rule widths).toList =
      '+' :: widths.flatMap fun width => List.replicate (width + 2) '-' ++ ['+'] := by
  rw [rule, String.toList_append, String.toList_join, List.flatMap_map]
  simp

theorem toList_contentLine (widths : List Nat) (texts : List String) :
    (contentLine widths texts).toList =
      '|' :: (widths.zip texts).flatMap fun (width, text) => spaced width text ++ ['|'] := by
  rw [contentLine, String.toList_append, String.toList_join, List.flatMap_map]
  simp [spaced, padded]

theorem length_contentLine (h : FitsTidily row widths) :
    (contentLine widths row).length = (rule widths).length := by
  rw [← String.length_toList, ← String.length_toList, toList_contentLine, toList_rule,
    List.length_cons, List.length_cons]
  induction h with
  | nil => rfl
  | cons hcell _ ih => simp_all [length_spaced hcell.1 hcell.2]

theorem contentLine_ne_rule (widths : List Nat) (texts : List String) :
    contentLine widths texts ≠ rule widths := by
  intro h
  have hlist := congrArg String.toList h
  rw [toList_contentLine, toList_rule] at hlist
  exact absurd (List.cons.inj hlist).1 (by decide)

theorem noLineFeed_rule (widths : List Nat) : '\n' ∉ (rule widths).toList := by
  simp [toList_rule]

theorem noLineFeed_contentLine (h : FitsTidily row widths) :
    '\n' ∉ (contentLine widths row).toList := by
  rw [toList_contentLine]
  induction h with
  | nil => decide
  | cons hcell _ ih =>
      simp only [List.mem_cons, not_or] at ih ⊢
      simpa [spaced, hcell.1.noLineFeed] using ih.2

/-- The columns in which the columns of a grid end, the first one starting behind the given
corner. -/
def ends (corner : Nat) : List Nat → List Nat
  | [] => []
  | width :: widths => (corner + width + 3) :: ends (corner + width + 3) widths

theorem corners_rule (widths : List Nat) : corners (rule widths) = 0 :: ends 0 widths := by
  have hends (corner : Nat) :
      (widths.flatMap fun width => List.replicate (width + 2) '-' ++ ['+']).idxsOf '+'
        (corner + 1) = ends corner widths := by
    induction widths generalizing corner with
    | nil => rfl
    | cons width widths ih =>
        have hrule : (List.replicate (width + 2) '-').idxsOf '+' (corner + 1) = [] := by
          rw [List.idxsOf_eq_nil_iff]
          exact fun c hc => by simp [List.eq_of_mem_replicate hc]
        have hnext : corner + 1 + (width + 2) + 1 = corner + width + 3 + 1 := by omega
        rw [List.flatMap_cons, List.append_assoc, List.idxsOf_append, hrule, List.length_replicate,
          List.nil_append, List.singleton_append, List.idxsOf_cons,
          if_pos (beq_self_eq_true '+'), hnext, ih, ends]
        congr 1
        omega
  rw [corners, toList_rule, List.idxsOf_cons, if_pos (beq_self_eq_true '+'), hends]

theorem between_eq {front cell back : List Char}
    (h : line.toList = front ++ '|' :: (cell ++ back)) :
    between line front.length (front.length + cell.length + 1) =
      String.ofList (trimChars (· == ' ') cell) := by
  have hline : line.toList = (front ++ ['|'] ++ cell) ++ back := by simp [h]
  rw [between, hline, List.take_left' (by simp; omega), List.drop_left' (by simp)]

/-- What stands behind a corner gives the cells back, whatever is in front of it. -/
theorem map_between_ends (h : FitsTidily row widths) (front : List Char)
    (hline : line.toList = front ++ '|' ::
      (widths.zip row).flatMap fun (width, text) => spaced width text ++ ['|']) :
    ((front.length :: ends front.length widths).zip (ends front.length widths)).map
      (fun (left, right) => between line left right) = row := by
  induction h generalizing front with
  | nil => rfl
  | @cons text width row widths hcell _ ih =>
      have hlength := length_spaced hcell.1 hcell.2
      have hbehind : (front ++ '|' :: spaced width text).length = front.length + width + 3 := by
        rw [List.length_append, List.length_cons, hlength]
        omega
      rw [List.zip_cons_cons, List.flatMap_cons, List.append_assoc] at hline
      have hrest := ih (front ++ '|' :: spaced width text) (by simp [hline])
      have hfirst : between line front.length (front.length + width + 3) = text := by
        have hcut := between_eq hline
        rwa [hlength, trimChars_spaced hcell.1, String.ofList_toList] at hcut
      rw [hbehind] at hrest
      rw [ends, List.zip_cons_cons, List.map_cons, hrest]
      exact congrArg (· :: row) hfirst

/-- A line gives the cells back when it is cut at the corners of the rule. -/
theorem cellsUnder_rule (h : FitsTidily row widths) :
    cellsUnder (rule widths) (contentLine widths row) = row := by
  rw [cellsUnder, corners_rule]
  exact map_between_ends h [] (toList_contentLine widths row)

end Lines

section Grids

variable {row : Row} {rows : List Row} {n : Nat}

/-- A row of tidy cells. -/
structure IsTidyRow (row : Row) : Prop where
  ne_nil : row ≠ []
  cells : ∀ cell ∈ row, IsTidy cell

theorem IsTidyRow.height_eq (h : IsTidyRow row) : height row = 1 := by
  have hones : height row = (row.map fun _ => 1).foldr max 0 := by
    rw [height, List.map_congr_left fun cell hcell => ?_]
    rw [(h.cells cell hcell).cellLines_eq, List.length_singleton]
  have hmax : ∀ others : Row, (others.map fun _ => 1).foldr max 0 ≤ 1 := by
    intro others
    induction others with
    | nil => exact Nat.zero_le 1
    | cons _ others ih => exact Nat.max_le.2 ⟨le_refl 1, ih⟩
  obtain ⟨cell, rest, rfl⟩ := List.exists_cons_of_ne_nil h.ne_nil
  rw [hones, List.map_cons, List.foldr_cons]
  exact Nat.max_eq_left (hmax rest)

theorem IsTidyRow.rowLines_eq (h : IsTidyRow row) (widths : List Nat) :
    rowLines widths row = [contentLine widths row] := by
  have hcells : (row.map fun cell => (cellLines cell).getD 0 "") = row := by
    rw [List.map_congr_left fun cell hcell => ?_, List.map_id']
    rw [(h.cells cell hcell).cellLines_eq]
    rfl
  rw [rowLines, h.height_eq, List.range_one, List.map_singleton, hcells]

/-- A grid of tidy rows has one line for each row, between rules. -/
theorem lines_eq (h : ∀ row ∈ rows, IsTidyRow row) :
    lines rows = rule (columnWidths rows) :: rows.flatMap fun row =>
      [contentLine (columnWidths rows) row, rule (columnWidths rows)] := by
  rw [lines, List.flatMap_congr fun row hrow => ?_]
  rw [(h row hrow).rowLines_eq, List.singleton_append]

theorem length_lines (h : ∀ row ∈ rows, IsTidyRow row) :
    (lines rows).length = 1 + 2 * rows.length := by
  rw [lines_eq h, List.length_cons, List.length_flatMap]
  simp
  omega

/-- Every line of a grid of tidy rows is a rule or shows a row. -/
theorem mem_lines (h : ∀ row ∈ rows, IsTidyRow row) {line : String} (hline : line ∈ lines rows) :
    line = rule (columnWidths rows) ∨ ∃ row ∈ rows, line = contentLine (columnWidths rows) row := by
  rw [lines_eq h, List.mem_cons, List.mem_flatMap] at hline
  rcases hline with rfl | ⟨row, hrow, hline⟩
  · exact .inl rfl
  · rcases List.mem_pair.1 hline with rfl | rfl
    · exact .inr ⟨row, hrow, rfl⟩
    · exact .inl rfl

theorem fitsTidily_columnWidths (h : ∀ row ∈ rows, IsTidyRow row)
    (hlength : ∀ row ∈ rows, row.length = n) :
    ∀ row ∈ rows, FitsTidily row (columnWidths rows) :=
  fun row hrow => (hasRoom_columnWidths hlength row hrow).fitsTidily (h row hrow).cells

theorem noLineFeed_of_mem_lines (h : ∀ row ∈ rows, IsTidyRow row)
    (hlength : ∀ row ∈ rows, row.length = n) {line : String} (hline : line ∈ lines rows) :
    '\n' ∉ line.toList := by
  rcases mem_lines h hline with rfl | ⟨row, hrow, rfl⟩
  · exact noLineFeed_rule _
  · exact noLineFeed_contentLine (fitsTidily_columnWidths h hlength row hrow)

/-- The lines of a grid are all as long as its rules. -/
theorem length_of_mem_lines (h : ∀ row ∈ rows, IsTidyRow row)
    (hlength : ∀ row ∈ rows, row.length = n) {line : String} (hline : line ∈ lines rows) :
    line.length = (rule (columnWidths rows)).length := by
  rcases mem_lines h hline with rfl | ⟨row, hrow, rfl⟩
  · rfl
  · exact length_contentLine (fitsTidily_columnWidths h hlength row hrow)

/-- Reading a grid of equally long rows gives them back in their order. -/
theorem read_lines (h : ∀ row ∈ rows, IsTidyRow row) (hlength : ∀ row ∈ rows, row.length = n) :
    read (lines rows) = rows := by
  have hfits := fitsTidily_columnWidths h hlength
  rw [lines_eq h, read]
  generalize columnWidths rows = widths at hfits
  clear h hlength
  induction rows with
  | nil => rfl
  | cons row rest ih =>
      obtain ⟨hrow, hrest⟩ := List.forall_mem_cons.1 hfits
      have hline : (contentLine widths row ≠ rule widths) := contentLine_ne_rule widths row
      rw [List.flatMap_cons, List.cons_append, List.filter_cons_of_pos (by simpa using hline),
        List.singleton_append, List.filter_cons_of_neg (by simp), List.map_cons,
        cellsUnder_rule hrow, ih hrest]

end Grids

end Grid

end InterfaceProbe
