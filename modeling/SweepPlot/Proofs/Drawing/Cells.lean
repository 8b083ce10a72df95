import Mathlib
import SweepPlot.Drawing.Chart
import SweepPlot.Proofs.Figure.Series
import SweepPlot.Proofs.Layout
set_option autoImplicit false

namespace SweepPlot

namespace Drawing

section Index

variable {rows cols row col row' col' : Nat}

theorem cellIndex_lt (row_lt : row < rows) (col_lt : col < cols) : cellIndex cols row col < rows * cols := by
  calc
    row * cols + col < row * cols + cols := Nat.add_lt_add_left col_lt _
    _ = (row + 1) * cols := (Nat.succ_mul row cols).symm
    _ ≤ rows * cols := Nat.mul_le_mul_right cols row_lt

theorem cellIndex_div (col_lt : col < cols) : cellIndex cols row col / cols = row := by
  rw [cellIndex, Nat.add_comm, Nat.add_mul_div_right _ _ (Nat.zero_lt_of_lt col_lt), Nat.div_eq_of_lt col_lt,
    Nat.zero_add]

theorem cellIndex_mod (col_lt : col < cols) : cellIndex cols row col % cols = col := by
  rw [cellIndex, Nat.mul_add_mod_self_right, Nat.mod_eq_of_lt col_lt]

theorem cellIndex_inj (col_lt : col < cols) (col_lt' : col' < cols) :
    cellIndex cols row col = cellIndex cols row' col' ↔ row = row' ∧ col = col' := by
  constructor
  · intro same
    have rows := congrArg (· / cols) same
    have columns := congrArg (· % cols) same
    simp only [cellIndex_div, cellIndex_mod, col_lt, col_lt'] at rows columns
    exact ⟨rows, columns⟩
  · rintro ⟨rfl, rfl⟩
    rfl

theorem getElem?_rowByRow {α : Type} (cell : Nat → Nat → α) (row_lt : row < rows) (col_lt : col < cols) :
    ((List.range rows).flatMap fun r => (List.range cols).map (cell r))[cellIndex cols row col]? =
      some (cell row col) := by
  have length : ∀ n, ((List.range n).flatMap fun r => (List.range cols).map (cell r)).length = n * cols := by
    intro n
    simp [List.length_flatMap]
  induction rows with
  | zero => omega
  | succ n ih =>
    -- The last row stands behind all cells of the rows before it.
    rw [List.range_succ, List.flatMap_append]
    by_cases before : row < n
    · rw [List.getElem?_append_left (by rw [length]; exact cellIndex_lt before col_lt), ih before]
    · obtain rfl : row = n := by omega
      have offset : cellIndex cols row col - row * cols = col := Nat.add_sub_cancel_left ..
      rw [List.getElem?_append_right (by rw [length]; exact Nat.le_add_right _ _), length, offset]
      simp [col_lt]

theorem getElem?_cells (b : Box) (row_lt : row < rows) (col_lt : col < cols) :
    (b.cells rows cols)[cellIndex cols row col]? = some (b.cell rows cols row col) :=
  getElem?_rowByRow (b.cell rows cols) row_lt col_lt

end Index

section Pixels

/-- The pixels of a box, from its left and upper edge up to but without its right and lower one. -/
def Box.Holds (b : Box) (p : Pixel) : Prop :=
  (b.left ≤ p.1 ∧ p.1 < b.right) ∧ b.top ≤ p.2 ∧ p.2 < b.bottom

def InPart (length : Int) (parts index : Nat) (x : Int) : Prop :=
  Box.partStart length parts index ≤ x ∧ x < Box.partStart length parts (index + 1)

variable {length x : Int} {parts i j : Nat}

theorem partStart_mono (wide : 0 ≤ length / parts) (le : i ≤ j) :
    Box.partStart length parts i ≤ Box.partStart length parts j := by
  have whole : (i : Int) * (length / parts) ≤ j * (length / parts) :=
    Int.mul_le_mul_of_nonneg_right (Int.ofNat_le.mpr le) wide
  unfold Box.partStart
  omega

theorem partStart_succ_le (short : length / parts < 0) (i : Nat) :
    Box.partStart length parts (i + 1) ≤ Box.partStart length parts i := by
  have next : ((i + 1 : Nat) : Int) * (length / parts) = i * (length / parts) + length / parts := by
    push_cast
    ring
  unfold Box.partStart
  omega

theorem InPart.le (first : InPart length parts i x) (second : InPart length parts j x) : i ≤ j := by
  obtain ⟨start, stop⟩ := first
  obtain ⟨-, before⟩ := second
  by_contra! later
  -- Parts of a length stand in order, but those of a length below zero stand backwards and are empty.
  by_cases wide : 0 ≤ length / parts
  · have ordered : Box.partStart length parts (j + 1) ≤ Box.partStart length parts i := partStart_mono wide later
    omega
  · have empty := partStart_succ_le (not_le.mp wide) i
    omega

theorem InPart.unique (first : InPart length parts i x) (second : InPart length parts j x) : i = j :=
  Nat.le_antisymm (first.le second) (second.le first)

theorem holds_cell_iff {b : Box} {rows cols row col : Nat} {p : Pixel} : (b.cell rows cols row col).Holds p ↔
    InPart b.width cols col (p.1 - b.left) ∧ InPart b.height rows row (p.2 - b.top) := by
  simp only [Box.Holds, Box.cell, Box.right, Box.bottom, InPart]
  omega

end Pixels

section Figures

/-- Each panel is drawn once, after all else and in the order of the panels, in the cell that its row and column give,
and no pixel belongs to the cells of two panels. -/
structure DrawsApart (figure : Figure) : Prop where
  scene : (sceneOf figure).elements = (sceneOf { figure with panels := [] }).elements ++
    (placements figure).flatMap fun (panel, cell) => panelElements cell panel
  once : (placements figure).map Prod.fst = figure.panels
  cells : ∀ placed ∈ placements figure, some placed.2 =
    ((plotArea figure).cells figure.rows figure.cols)[cellIndex figure.cols placed.1.row placed.1.col]?
  apart : (placements figure).Pairwise fun a b => ∀ p, ¬ (a.2.Holds p ∧ b.2.Holds p)

variable {figure : Figure}

theorem placements_eq (inside : ∀ panel ∈ figure.panels, panel.row < figure.rows ∧ panel.col < figure.cols) :
    placements figure = figure.panels.map fun panel =>
      (panel, (plotArea figure).cell figure.rows figure.cols panel.row panel.col) := by
  rw [placements, ← List.filterMap_eq_map']
  refine List.filterMap_congr fun panel mem => ?_
  rw [getElem?_cells _ (inside panel mem).1 (inside panel mem).2]
  rfl

theorem elements_sceneOf (figure : Figure) :
    (sceneOf figure).elements = (sceneOf { figure with panels := [] }).elements ++
      (placements figure).flatMap fun (panel, cell) => panelElements cell panel := by
  have bare : (sceneOf { figure with panels := [] }).elements = _ := List.append_nil _
  rw [bare]
  rfl

theorem drawsApart (inside : ∀ panel ∈ figure.panels, panel.row < figure.rows ∧ panel.col < figure.cols)
    (apart : (figure.panels.map fun panel => (panel.row, panel.col)).Nodup) : DrawsApart figure where
  scene := elements_sceneOf figure
  once := by
    rw [placements_eq inside, List.map_map]
    exact List.map_id _
  cells := by
    rw [placements_eq inside]
    intro placed mem
    obtain ⟨panel, listed, rfl⟩ := List.mem_map.mp mem
    exact (getElem?_cells _ (inside panel listed).1 (inside panel listed).2).symm
  apart := by
    rw [placements_eq inside, List.pairwise_map]
    refine (List.pairwise_map.mp apart).imp fun {a b} different p shared => different ?_
    have first := holds_cell_iff.mp shared.1
    have second := holds_cell_iff.mp shared.2
    exact Prod.ext (first.2.unique second.2) (first.1.unique second.1)

end Figures

end Drawing

namespace Layout

open Drawing

/-- Every panel is found at its place and has a cell of the grid for itself, and each figure draws it there. -/
structure Separates (layout : Layout) : Prop where
  found : ∀ p ∈ layout.panels, layout.panelAt? p.row p.col = some p
  index_lt : ∀ p ∈ layout.panels, cellIndex layout.cols p.row p.col < layout.rows * layout.cols
  nodup : (layout.panels.map fun p => cellIndex layout.cols p.row p.col).Nodup
  drawn : ∀ (v : View) (groups : List (Group Float)) (figure : Figure), v.render layout groups = .ok figure →
    figure.rows = layout.rows ∧ figure.cols = layout.cols ∧
      figure.panels.map (fun panel => (panel.row, panel.col)) = layout.panels.map (fun p => (p.row, p.col)) ∧
      DrawsApart figure

section Placed

variable {layout : Layout}

theorem WellPlaced.drawsApart (placed : layout.WellPlaced) {figure : Figure} (rows : figure.rows = layout.rows)
    (cols : figure.cols = layout.cols)
    (same : figure.panels.map (fun panel => (panel.row, panel.col)) = layout.panels.map fun p => (p.row, p.col)) :
    DrawsApart figure := by
  refine Drawing.drawsApart (fun panel mem => ?_) ?_
  · have listed : (panel.row, panel.col) ∈ layout.panels.map fun p => (p.row, p.col) := by
      rw [← same]
      exact List.mem_map_of_mem mem
    obtain ⟨p, memP, cell⟩ := List.mem_map.mp listed
    obtain ⟨row, col⟩ := Prod.mk.inj cell
    rw [rows, cols, ← row, ← col]
    exact placed.inside p memP
  · rw [same]
    exact List.pairwise_map.mpr (placed.apart.imp fun apart shared => apart (Prod.mk.inj shared))

theorem WellPlaced.separates (placed : layout.WellPlaced) : layout.Separates where
  found _ mem := placed.panelAt?_eq mem
  index_lt p mem := cellIndex_lt (placed.inside p mem).1 (placed.inside p mem).2
  nodup := by
    refine List.pairwise_map.mpr (placed.apart.imp_of_mem fun {p q} memP memQ apart same => apart ?_)
    exact (cellIndex_inj (placed.inside p memP).2 (placed.inside q memQ).2).mp same
  drawn v groups figure rendered := by
    obtain ⟨rows, cols⟩ := View.render_grid rendered
    obtain ⟨_, -, holds⟩ := View.render_holdsLines rendered
    have same := View.cells_of_holds holds
    exact ⟨rows, cols, same, placed.drawsApart rows cols same⟩

end Placed

/-- A layout is accepted if and only if it has a grid, panels and a size that shows something, and its panels lie in
different cells of the grid. Then every panel is drawn once, and none over another. -/
theorem validate_separates (layout : Layout) :
    (layout.validate = .ok () ↔ 0 < layout.rows ∧ 0 < layout.cols ∧ layout.WellPlaced) ∧
      (layout.validate = .ok () → layout.Separates) := by
  constructor
  · rw [validate_eq_ok_iff]
    exact ⟨fun placed => ⟨placed.grid.1, placed.grid.2, placed⟩, fun placed => placed.2.2⟩
  · intro valid
    exact (validate_eq_ok_iff.mp valid).separates

def scattered : Layout where
  rows := 2
  cols := 2
  width := 600
  height := 400
  panels :=
    [{ metric := .throughput, row := 1, col := 1 }, { metric := .throughput, row := 0, col := 1 },
     { metric := .fairness, row := 1, col := 0 }]

theorem validate_separates_scattered :
    ∃ figure, View.spotlight.render scattered [View.timed "bbq" 2 (some 2.5)] = .ok figure ∧
      (placements figure).map (fun placed => (placed.1.row, placed.1.col)) = [(1, 1), (0, 1), (1, 0)] ∧
      scattered.panels.map (fun p => cellIndex scattered.cols p.row p.col) = [3, 1, 2] ∧ [3, 1, 2].Nodup ∧
      DrawsApart figure := by
  obtain ⟨figure, rendered⟩ := exists_eq_ok
    (show (View.spotlight.render scattered [View.timed "bbq" 2 (some 2.5)]).isOk = true by decide +kernel)
  have separate := (validate_separates scattered).2 rfl
  obtain ⟨-, -, same, drawn⟩ := separate.drawn _ _ _ rendered
  have order : (placements figure).map (fun placed => (placed.1.row, placed.1.col)) =
      figure.panels.map fun panel => (panel.row, panel.col) := by
    rw [← drawn.once, List.map_map]
    rfl
  exact ⟨figure, rendered, order.trans same, rfl, separate.nodup, drawn⟩

end Layout

end SweepPlot
