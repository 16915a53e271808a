import Mathlib.Algebra.GroupWithZero.Nat
import RecordStore.Output.Format
import RecordStore.Proofs.Text.Pieces

/-! # The lines of a grid are equally wide

    A grid is made line by line, and its borders meet only if all lines take the same number of
    columns.  They do where each character takes one column by itself, whatever the cells hold
    else: cells that take several lines, and rows that have fewer cells than others.  The route:

    * `Solid`: characters that take one column wherever they stand, and do not end a line;
    * `Straight`, `Block`: a line of such characters with a given number of them, and a text of
      such lines, each of which is ended;
    * `columns_le_cellWidth`, `cellWidth_le_columnWidths`: every line of a cell has room in the
      column of the cell;
    * `straight_rowLine`, `block_rowText`: the lines of a row, by recursion on the columns;
    * `block_rule`, `grid_aligned`: the lines between the rows, and the grid. -/

namespace RecordStore.Output

open RecordStore.Text

/-! ## Lines of a given length -/

/-- Characters up to the no-break space that neither begin a sequence nor end a line. -/
structure Solid (c : Char) : Prop where
  narrow : c.toNat ≤ 0xA0
  noEscape : c ≠ '\x1b'
  noLineFeed : c ≠ '\n'

instance : DecidablePred Solid := fun c =>
  decidable_of_iff (c.toNat ≤ 0xA0 ∧ c ≠ '\x1b' ∧ c ≠ '\n')
    ⟨fun ⟨narrow, noEscape, noLineFeed⟩ => ⟨narrow, noEscape, noLineFeed⟩,
      fun h => ⟨h.narrow, h.noEscape, h.noLineFeed⟩⟩

/-- A line of solid characters, so many of them. -/
structure Straight (length : Nat) (line : List Char) : Prop where
  solid : ∀ c ∈ line, Solid c
  length_eq : line.length = length

theorem Straight.nil : Straight 0 [] := ⟨List.forall_mem_nil _, rfl⟩

/-- The characters of a straight line have a column each, and share none. -/
theorem Straight.columns_eq {n : Nat} {line : List Char} (h : Straight n line) :
    columns line = n := by
  have plain : '\x1b' ∉ line := fun mem => (h.solid _ mem).noEscape rfl
  rw [columns_of_forall_le (fun c hc => (h.solid c hc).narrow) plain, h.length_eq]

/-- Lines may be put together; so the line of a row is made of its cells. -/
theorem Straight.append {m n : Nat} {front back : List Char} (h : Straight m front)
    (h' : Straight n back) : Straight (m + n) (front ++ back) where
  solid := List.forall_mem_append.mpr ⟨h.solid, h'.solid⟩
  length_eq := by rw [List.length_append, h.length_eq, h'.length_eq]

theorem Straight.replicate {c : Char} (solid : Solid c) (n : Nat) :
    Straight n (List.replicate n c) where
  solid _ mem := List.eq_of_mem_replicate mem ▸ solid
  length_eq := List.length_replicate

/-- A text of straight lines of one length, each with a line feed behind it. -/
def Block (length : Nat) (text : List Char) : Prop :=
  ∃ lines : List (List Char), text = lines.flatMap (· ++ ['\n']) ∧
    ∀ line ∈ lines, Straight length line

/-- One line, when it is ended. -/
theorem Straight.block {n : Nat} {line : List Char} (h : Straight n line) :
    Block n (line ++ ['\n']) :=
  ⟨[line], (List.append_nil _).symm, List.forall_mem_singleton.mpr h⟩

/-- Texts of lines may be put below each other. -/
theorem Block.append {n : Nat} {text text' : List Char} (h : Block n text)
    (h' : Block n text') : Block n (text ++ text') := by
  obtain ⟨lines, rfl, straight⟩ := h
  obtain ⟨lines', rfl, straight'⟩ := h'
  exact ⟨lines ++ lines', List.flatMap_append.symm,
    List.forall_mem_append.mpr ⟨straight, straight'⟩⟩

theorem Block.flatten {n : Nat} {texts : List (List Char)}
    (h : ∀ text ∈ texts, Block n text) : Block n texts.flatten := by
  induction texts with
  | nil => exact ⟨[], rfl, List.forall_mem_nil _⟩
  | cons text texts ih =>
      obtain ⟨first, rest⟩ := List.forall_mem_cons.mp h
      exact first.append (ih rest)

/-- So may they with a text of lines between any two. -/
theorem Block.intercalate {n : Nat} {sep : List Char} {texts : List (List Char)}
    (hsep : Block n sep) (h : ∀ text ∈ texts, Block n text) :
    Block n (sep.intercalate texts) := by
  induction texts with
  | nil => exact .flatten (List.forall_mem_nil _)
  | cons text texts ih =>
      obtain ⟨first, rest⟩ := List.forall_mem_cons.mp h
      cases texts with
      | nil =>
          rw [List.intercalate_singleton]
          exact first
      | cons next texts =>
          rw [List.intercalate_cons_cons]
          exact (first.append hsep).append (ih rest)

/-! ## Widths -/

/-- A running maximum is not exceeded by where it began, nor by what was taken into it. -/
theorem le_foldl_max {α : Type} (f : α → Nat) (l : List α) (start : Nat) :
    start ≤ l.foldl (fun m a => max m (f a)) start ∧
      ∀ a ∈ l, f a ≤ l.foldl (fun m a => max m (f a)) start := by
  induction l generalizing start with
  | nil => exact ⟨Nat.le_refl _, List.forall_mem_nil _⟩
  | cons a l ih =>
      obtain ⟨began, taken⟩ := ih (max start (f a))
      rw [List.foldl_cons]
      refine ⟨Nat.le_trans (Nat.le_max_left ..) began, List.forall_mem_cons.mpr ⟨?_, taken⟩⟩
      exact Nat.le_trans (Nat.le_max_right ..) began

theorem columns_nil : columns [] = 0 := Straight.nil.columns_eq

/-- No line of a cell is wider than the cell. -/
theorem columns_le_cellWidth {cell : String} {line : List Char} (h : line ∈ cellLines cell) :
    columns line ≤ cellWidth cell :=
  (le_foldl_max columns (cellLines cell) 0).2 line h

/-- Widening compares column by column, where a column that is missing has no width. -/
theorem getD_widen (vs ws : List Nat) (j : Nat) :
    (columnWidths.widen vs ws).getD j 0 = max (vs.getD j 0) (ws.getD j 0) := by
  induction vs generalizing ws j with
  | nil => simp [columnWidths.widen]
  | cons v vs ih =>
      cases ws with
      | nil => simp [columnWidths.widen]
      | cons w ws =>
          cases j with
          | zero => rfl
          | succ j => simpa [columnWidths.widen] using ih ws j

/-- The width of one column is a running maximum over the rows. -/
theorem getD_columnWidths (rows : List (List String)) (j : Nat) :
    (columnWidths rows).getD j 0
      = rows.foldl (fun w row => max w ((row.map cellWidth).getD j 0)) 0 := by
  have running (start : List Nat) :
      (rows.foldl (fun ws row => columnWidths.widen ws (row.map cellWidth)) start).getD j 0
        = rows.foldl (fun w row => max w ((row.map cellWidth).getD j 0)) (start.getD j 0) := by
    induction rows generalizing start with
    | nil => rfl
    | cons row rows ih => rw [List.foldl_cons, List.foldl_cons, ih, getD_widen]
  exact running []

/-- No cell is wider than its column; where a row has no cell, there is nothing to be wider. -/
theorem cellWidth_le_columnWidths {rows : List (List String)} {row : List String}
    (h : row ∈ rows) (j : Nat) :
    (row.map cellWidth).getD j 0 ≤ (columnWidths rows).getD j 0 := by
  rw [getD_columnWidths]
  exact (le_foldl_max (fun row => (row.map cellWidth).getD j 0) rows 0).2 row h

/-- A line of a cell, or the blank that continues one with fewer lines, has room in its column. -/
theorem columns_le_columnWidths {rows : List (List String)} {row : List String} (h : row ∈ rows)
    (i j : Nat) :
    columns (((row.map cellLines).getD j []).getD i []) ≤ (columnWidths rows).getD j 0 := by
  refine Nat.le_trans ?_ (cellWidth_le_columnWidths h j)
  simp only [List.getD_eq_getElem?_getD, List.getElem?_map]
  cases row[j]? with
  | none => exact Nat.le_refl 0
  | some cell =>
      cases hline : (cellLines cell)[i]? with
      | none => simp [hline, columns_nil]
      | some line => simpa [hline] using columns_le_cellWidth (List.mem_of_getElem? hline)

/-! ## Rows -/

/-- The lines of a cell of solid characters and line feeds are solid. -/
theorem solid_of_mem_cellLines {cell : String} {line : List Char} (h : line ∈ cellLines cell)
    (solid : ∀ c ∈ cell.toList, c = '\n' ∨ Solid c) : ∀ c ∈ line, Solid c := by
  intro c hc
  -- each line is a piece between line feeds, or what is left of one without a carriage return
  obtain ⟨piece, hpiece, sub⟩ : ∃ piece ∈ splitChars '\n' cell.toList, line ⊆ piece := by
    have ended (h : line ∈ (splitChars '\n' cell.toList).dropLast.map fun piece =>
        if piece.getLast? = some '\r' then piece.dropLast else piece) :
        ∃ piece ∈ splitChars '\n' cell.toList, line ⊆ piece := by
      obtain ⟨piece, hpiece, rfl⟩ := List.mem_map.mp h
      refine ⟨piece, List.dropLast_subset _ hpiece, ?_⟩
      split
      · exact List.dropLast_subset piece
      · exact List.Subset.refl piece
    rw [cellLines] at h
    split at h
    · exact ended h
    · exact ended h
    · next piece _ hlast =>
        rcases List.mem_append.mp h with h | h
        · exact ended h
        · rw [List.mem_singleton.mp h]
          exact ⟨piece, List.mem_of_getLast? hlast, List.Subset.refl piece⟩
  obtain ⟨mem, ne⟩ := mem_of_mem_splitChars hpiece (sub hc)
  exact (solid c mem).resolve_left ne

/-- The length of the lines of a grid whose columns have these widths: there is a border on the
    left, and each column has a space on either side and a border on its right. -/
def gridLength (widths : List Nat) : Nat := 1 + (widths.map (· + 3)).sum

/-- A line between rows is as long as those of the rows. -/
theorem block_rule {c : Char} (solid : Solid c) (widths : List Nat) :
    Block (gridLength widths) (rule c widths) := by
  have corner : Straight 1 ['+'] := .replicate (by decide) 1
  have borders : Straight (widths.map (· + 3)).sum
      (widths.flatMap fun w => List.replicate (w + 2) c ++ ['+']) := by
    induction widths with
    | nil => exact .nil
    | cons w ws ih => exact ((Straight.replicate solid (w + 2)).append corner).append ih
  exact (corner.append borders).block

/-- A line of a cell with its padding and the border on its right. -/
theorem straight_padded {text : List Char} {width : Nat} (solid : ∀ c ∈ text, Solid c)
    (room : columns text ≤ width) :
    Straight (width + 3)
      (' ' :: text ++ List.replicate (width - columns text) ' ' ++ [' ', '|']) := by
  have line : Straight text.length text := ⟨solid, rfl⟩
  rw [line.columns_eq] at room ⊢
  have space : Straight 1 [' '] := .replicate (by decide) 1
  have padding := Straight.replicate (c := ' ') (by decide) (width - text.length)
  have border : Straight 2 [' ', '|'] := space.append (.replicate (by decide) 1)
  have padded := ((space.append line).append padding).append border
  rwa [show 1 + text.length + (width - text.length) + 2 = width + 3 by omega] at padded

/-- What is not there is empty, so what stands in a list at some place is in one of its lists. -/
theorem exists_mem_of_mem_getD {α : Type} {l : List (List α)} {i : Nat} {a : α}
    (h : a ∈ l.getD i []) : ∃ x ∈ l, a ∈ x := by
  rw [List.getD_eq_getElem?_getD] at h
  cases hx : l[i]? with
  | none =>
      rw [hx] at h
      cases h
  | some x =>
      rw [hx] at h
      exact ⟨x, List.mem_of_getElem? hx, h⟩

/-- One line of a row, behind its left border. -/
theorem straight_rowLine (i : Nat) {widths : List Nat} (cells : List (List (List Char)))
    (solid : ∀ cell ∈ cells, ∀ line ∈ cell, ∀ c ∈ line, Solid c)
    (room : ∀ j, columns ((cells.getD j []).getD i []) ≤ widths.getD j 0) :
    ∃ line, rowLine i widths cells = line ++ ['\n'] ∧ Straight (widths.map (· + 3)).sum line := by
  induction widths generalizing cells with
  | nil => exact ⟨[], rfl, .nil⟩
  | cons width widths ih =>
      have first : cells.headD [] = cells.getD 0 [] := by cases cells <;> rfl
      have behind (j : Nat) : cells.tail.getD j [] = cells.getD (j + 1) [] := by
        cases cells <;> rfl
      obtain ⟨rest, hrest, straight⟩ := ih cells.tail
        (fun cell mem => solid cell (List.mem_of_mem_tail mem))
        (fun j => by rw [behind]; exact room (j + 1))
      have text : ∀ c ∈ (cells.getD 0 []).getD i [], Solid c := by
        intro c hc
        obtain ⟨line, hline, hc⟩ := exists_mem_of_mem_getD hc
        obtain ⟨cell, hcell, hline⟩ := exists_mem_of_mem_getD hline
        exact solid cell hcell line hline c hc
      refine ⟨_, ?_, (straight_padded text (room 0)).append straight⟩
      rw [rowLine, hrest, first]
      exact (List.append_assoc ..).symm

/-- The lines of a row, where the widths are those for some rows with this one among them. -/
theorem block_rowText {rows : List (List String)} {row : List String} (mem : row ∈ rows)
    (solid : ∀ cell ∈ row, ∀ c ∈ cell.toList, c = '\n' ∨ Solid c) :
    Block (gridLength (columnWidths rows)) (rowText (columnWidths rows) row) := by
  rw [rowText, List.flatMap_def]
  refine Block.flatten (List.forall_mem_map.mpr fun i _ => ?_)
  have within : ∀ cell ∈ row.map cellLines, ∀ line ∈ cell, ∀ c ∈ line, Solid c :=
    List.forall_mem_map.mpr fun cell hcell _ hline =>
      solid_of_mem_cellLines hline (solid cell hcell)
  obtain ⟨line, hline, straight⟩ :=
    straight_rowLine i _ within (columns_le_columnWidths mem i)
  have border : Straight 1 ['|'] := .replicate (by decide) 1
  rw [hline]
  exact (border.append straight).block

/-! ## Grids -/

/-- **All lines of a grid are equally wide.**  Where the titles and the cells are made of solid
    characters and line feeds, the text of the grid is made of lines, each with a line feed behind
    it, and each takes the columns that the widest cells ask for. -/
theorem grid_aligned {titles : List String} {rows : List (List String)}
    (solid : ∀ row ∈ titles :: rows, ∀ cell ∈ row, ∀ c ∈ cell.toList, c = '\n' ∨ Solid c) :
    ∃ lines : List (List Char), (grid titles rows).toList = lines.flatMap (· ++ ['\n']) ∧
      ∀ line ∈ lines, '\n' ∉ line ∧
        columns line = gridLength (columnWidths (titles :: rows)) := by
  have blockOf (row : List String) (mem : row ∈ titles :: rows) :=
    block_rowText mem (solid row mem)
  have thin := block_rule (c := '-') (by decide) (columnWidths (titles :: rows))
  have double := block_rule (c := '=') (by decide) (columnWidths (titles :: rows))
  have body : Block (gridLength (columnWidths (titles :: rows)))
      ((rule '-' (columnWidths (titles :: rows))).intercalate
        (rows.map (rowText (columnWidths (titles :: rows))))) :=
    thin.intercalate (List.forall_mem_map.mpr fun row mem =>
      blockOf row (List.mem_cons_of_mem _ mem))
  have head := (thin.append (blockOf titles List.mem_cons_self)).append double
  obtain ⟨lines, text, straight⟩ := (head.append body).append thin
  refine ⟨lines, ?_, fun line mem => ⟨fun feed => ?_, (straight line mem).columns_eq⟩⟩
  · rw [grid, String.toList_ofList]
    exact text
  · exact ((straight line mem).solid _ feed).noLineFeed rfl

/-- A cell of two lines, and a row that lacks a cell. -/
example : grid ["no", "title"] [["1", "a\nbc"], ["2"]] = String.join
    ["+----+-------+\n",
     "| no | title |\n",
     "+====+=======+\n",
     "| 1  | a     |\n",
     "|    | bc    |\n",
     "+----+-------+\n",
     "| 2  |       |\n",
     "+----+-------+\n"] := by
  decide +kernel

end RecordStore.Output
