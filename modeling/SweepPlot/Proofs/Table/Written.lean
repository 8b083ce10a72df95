import SweepPlot.Table.Written
set_option autoImplicit false

namespace SweepPlot.Table

section Cells

/-- Cells of the rows that a scanner reads, wherever in the file it stands. -/
def cellsFrom (spot : Spot) (cell : Bytes) (cells : List Bytes) (bytes : Bytes) : List (List Bytes) :=
  (({ spot, cell, cells } : Scanner).rows bytes).map (·.cells)

structure Scanner.Alike (s t : Scanner) : Prop where
  spot : s.spot = t.spot
  cell : s.cell = t.cell
  cells : s.cells = t.cells

variable {s t : Scanner}

theorem Scanner.Alike.row (same : s.Alike t) : s.row.cells = t.row.cells := by
  unfold Scanner.row
  rw [same.cell, same.cells]

theorem Scanner.Alike.plain (same : s.Alike t) (b : UInt8) :
    (s.plain b).1.Alike (t.plain b).1 ∧ (s.plain b).2.map (·.cells) = (t.plain b).2.map (·.cells) := by
  have row := same.row
  obtain ⟨spot, cell, cells⟩ := same
  unfold Scanner.plain
  split
  · exact ⟨⟨rfl, rfl, by simp [closeCell, cell, cells]⟩, rfl⟩
  · split
    · exact ⟨⟨rfl, rfl, rfl⟩, congrArg some row⟩
    · exact ⟨⟨rfl, by simp [push, cell], cells⟩, rfl⟩

theorem Scanner.Alike.step (same : s.Alike t) (b : UInt8) :
    (s.step b).1.Alike (t.step b).1 ∧ (s.step b).2.map (·.cells) = (t.step b).2.map (·.cells) := by
  have plain := same.plain b
  have skip : ∀ spot, (s.skip b spot).Alike (t.skip b spot) := fun spot => ⟨rfl, same.cell, same.cells⟩
  have push : ∀ spot, (s.push b spot).Alike (t.push b spot) :=
    fun spot => ⟨rfl, congrArg (b :: ·) same.cell, same.cells⟩
  unfold Scanner.step
  rw [← same.spot]
  cases s.spot <;> dsimp only
  case between =>
    split
    · exact ⟨skip .between, rfl⟩
    · split
      · exact ⟨skip .quoted, rfl⟩
      · exact plain
  case cellStart =>
    split
    · exact ⟨skip .quoted, rfl⟩
    · exact plain
  case bare => exact plain
  case quoted =>
    split
    · exact ⟨skip .quoteSeen, rfl⟩
    · exact ⟨push .quoted, rfl⟩
  case quoteSeen =>
    split
    · exact ⟨push .quoted, rfl⟩
    · exact plain

theorem Scanner.Alike.rows (same : s.Alike t) (bytes : Bytes) :
    (s.rows bytes).map (·.cells) = (t.rows bytes).map (·.cells) := by
  induction bytes generalizing s t with
  | nil =>
    have row : [s.row].map (·.cells) = [t.row].map (·.cells) := congrArg (fun cells => [cells]) same.row
    unfold Scanner.rows Scanner.finish
    rw [← same.spot]
    cases s.spot with
    | between => rfl
    | cellStart | bare | quoted | quoteSeen => exact row
  | cons b bytes ih =>
    obtain ⟨next, row⟩ := same.step b
    unfold Scanner.rows
    cases hs : s.step b with
    | mk s' r =>
      cases ht : t.step b with
      | mk t' r' =>
        rw [hs, ht] at next row
        cases r with
        | none =>
          obtain rfl : r' = none := by simpa using row.symm
          exact ih next
        | some r =>
          obtain ⟨r', rfl, cells⟩ := Option.map_eq_some_iff.mp row.symm
          simp only [List.map_cons, cells, ih next]

theorem map_cells_rows (s : Scanner) (bytes : Bytes) :
    (s.rows bytes).map (·.cells) = cellsFrom s.spot s.cell s.cells bytes := by
  apply Scanner.Alike.rows
  exact ⟨rfl, rfl, rfl⟩

end Cells

section Steps

variable {b : UInt8} {spot : Spot} {cell : Bytes} {cells : List Bytes} {bytes : Bytes}

theorem cellsFrom_of_step {next : Scanner} (step : ({ spot, cell, cells } : Scanner).step b = (next, none)) :
    cellsFrom spot cell cells (b :: bytes) = cellsFrom next.spot next.cell next.cells bytes := by
  rw [cellsFrom, Scanner.rows, step]
  exact map_cells_rows next bytes

theorem cellsFrom_comma (outside : spot ≠ .quoted) :
    cellsFrom spot cell cells (comma :: bytes) = cellsFrom .cellStart [] (cell.reverse :: cells) bytes := by
  have step : ({ spot, cell, cells } : Scanner).step comma =
      (({ spot, cell, cells } : Scanner).closeCell comma, none) := by
    cases spot with
    | quoted => exact absurd rfl outside
    | between | cellStart | bare | quoteSeen => rfl
  exact cellsFrom_of_step step

theorem cellsFrom_lineFeed (outside : spot ≠ .quoted) (inside : spot ≠ .between) :
    cellsFrom spot cell cells (lineFeed :: bytes) =
      (cell.reverse :: cells).reverse :: cellsFrom .between [] [] bytes := by
  have step : ({ spot, cell, cells } : Scanner).step lineFeed =
      (({ spot, cell, cells } : Scanner).closeRow lineFeed, some ({ spot, cell, cells } : Scanner).row) := by
    cases spot with
    | quoted => exact absurd rfl outside
    | between => exact absurd rfl inside
    | cellStart | bare | quoteSeen => rfl
  rw [cellsFrom, Scanner.rows, step]
  exact congrArg _ (map_cells_rows _ bytes)

def Spot.Opens (spot : Spot) : Prop :=
  spot = .between ∨ spot = .cellStart

theorem cellsFrom_quote (opens : spot.Opens) :
    cellsFrom spot [] cells (quote :: bytes) = cellsFrom .quoted [] cells bytes := by
  have step : ({ spot, cells } : Scanner).step quote = (({ spot, cells } : Scanner).skip quote .quoted, none) := by
    obtain rfl | rfl := opens <;> rfl
  exact cellsFrom_of_step step

theorem cellsFrom_plain (plain : (b == comma || b == quote || isTerminator b) = false)
    (spotted : spot.Opens ∨ spot = .bare) :
    cellsFrom spot cell cells (b :: bytes) = cellsFrom .bare (b :: cell) cells bytes := by
  simp only [Bool.or_eq_false_iff, beq_eq_false_iff_ne] at plain
  obtain ⟨⟨notComma, notQuote⟩, goesOn⟩ := plain
  have step : ({ spot, cell, cells } : Scanner).step b = (({ spot, cell, cells } : Scanner).push b .bare, none) := by
    obtain (rfl | rfl) | rfl := spotted <;> simp [Scanner.step, Scanner.plain, notComma, notQuote, goesOn]
  exact cellsFrom_of_step step

theorem cellsFrom_bare {text : Bytes} (plain : needsQuotes text = false) :
    cellsFrom .bare cell cells (text ++ bytes) = cellsFrom .bare (text.reverse ++ cell) cells bytes := by
  induction text generalizing cell with
  | nil => rfl
  | cons b text ih =>
    obtain ⟨first, others⟩ := Bool.or_eq_false_iff.mp plain
    rw [List.cons_append, cellsFrom_plain first (.inr rfl), ih others]
    simp

theorem cellsFrom_quoteSeen_quote :
    cellsFrom .quoteSeen cell cells (quote :: bytes) = cellsFrom .quoted (quote :: cell) cells bytes := by
  have step : ({ spot := .quoteSeen, cell, cells } : Scanner).step quote =
      (({ spot := .quoteSeen, cell, cells } : Scanner).push quote .quoted, none) := rfl
  exact cellsFrom_of_step step

theorem cellsFrom_quoted_quote :
    cellsFrom .quoted cell cells (quote :: bytes) = cellsFrom .quoteSeen cell cells bytes := by
  have step : ({ spot := .quoted, cell, cells } : Scanner).step quote =
      (({ spot := .quoted, cell, cells } : Scanner).skip quote .quoteSeen, none) := rfl
  exact cellsFrom_of_step step

/-- Inside quotes every byte belongs to the cell, a doubled quote for one. -/
theorem cellsFrom_quoted (text : Bytes) :
    cellsFrom .quoted cell cells (doubled text ++ quote :: bytes) =
      cellsFrom .quoteSeen (text.reverse ++ cell) cells bytes := by
  induction text generalizing cell with
  | nil => exact cellsFrom_quoted_quote
  | cons b text ih =>
    rw [doubled, List.reverse_cons, List.append_assoc]
    split
    next same =>
      rw [List.cons_append, List.cons_append, cellsFrom_quoted_quote, cellsFrom_quoteSeen_quote, ih, same]
      rfl
    next other =>
      have step : ({ spot := .quoted, cell, cells } : Scanner).step b =
          (({ spot := .quoted, cell, cells } : Scanner).push b .quoted, none) := if_neg other
      rw [List.cons_append, cellsFrom_of_step step]
      exact ih

/-- A cell is read as it was written. It is between rows still only if it is empty and the first of its row. -/
theorem cellsFrom_writeCell (opens : spot.Opens) (text bytes : Bytes) :
    ∃ spot', spot' ≠ .quoted ∧ (spot' = .between → spot = .between ∧ text = []) ∧
      cellsFrom spot [] cells (writeCell text ++ bytes) = cellsFrom spot' text.reverse cells bytes := by
  unfold writeCell
  split
  · refine ⟨.quoteSeen, by decide, nofun, ?_⟩
    rw [quotedCell, List.append_assoc, List.cons_append, cellsFrom_quote opens]
    have reads : cellsFrom .quoted [] cells (doubled text ++ quote :: bytes) =
        cellsFrom .quoteSeen (text.reverse ++ []) cells bytes := cellsFrom_quoted text
    rw [List.append_nil] at reads
    exact reads
  next plain =>
    cases text with
    | nil =>
      refine ⟨spot, ?_, fun between => ⟨between, rfl⟩, rfl⟩
      obtain rfl | rfl := opens <;> decide
    | cons b text =>
      obtain ⟨first, others⟩ := Bool.or_eq_false_iff.mp (Bool.eq_false_iff.mpr plain)
      refine ⟨.bare, by decide, nofun, ?_⟩
      rw [List.cons_append, cellsFrom_plain first (.inl opens), cellsFrom_bare others, List.reverse_cons]

theorem cellsFrom_writeCells {row : List Bytes} (given : row ≠ []) (opens : spot.Opens)
    (seen : spot = .between → row ≠ [[]]) :
    cellsFrom spot [] cells (writeCells row ++ lineFeed :: bytes) =
      (cells.reverse ++ row) :: cellsFrom .between [] [] bytes := by
  induction row generalizing spot cells with
  | nil => exact absurd rfl given
  | cons text row ih =>
    cases row with
    | nil =>
      obtain ⟨spot', outside, between, reads⟩ := cellsFrom_writeCell opens text (lineFeed :: bytes)
      have inside : spot' ≠ .between := by
        intro same
        obtain ⟨first, empty⟩ := between same
        exact seen first (by rw [empty])
      rw [writeCells, reads, cellsFrom_lineFeed outside inside]
      simp
    | cons next row =>
      obtain ⟨spot', outside, -, reads⟩ :=
        cellsFrom_writeCell opens text (comma :: (writeCells (next :: row) ++ lineFeed :: bytes))
      rw [writeCells, List.append_assoc, List.cons_append, reads, cellsFrom_comma outside,
        ih (List.cons_ne_nil next row) (.inr rfl) nofun]
      · simp
      · exact List.cons_ne_nil next row

theorem cellsFrom_writeRow {row : List Bytes} (given : row ≠ []) :
    cellsFrom .between [] [] (writeRow row ++ bytes) = row :: cellsFrom .between [] [] bytes := by
  unfold writeRow
  rw [List.append_assoc]
  split
  next alone =>
    have quoted : cellsFrom .quoted [] [] (quote :: lineFeed :: bytes) =
        cellsFrom .quoteSeen [] [] (lineFeed :: bytes) := cellsFrom_quoted_quote
    rw [alone, quotedCell]
    exact ((cellsFrom_quote (.inl rfl)).trans quoted).trans (cellsFrom_lineFeed (by decide) (by decide))
  next others => exact cellsFrom_writeCells given (.inl rfl) fun _ => others

end Steps

/-- The rows of a table are read as they were written, if its first byte begins no byte order mark. -/
theorem rows_writeRows {table : List (List Bytes)} (given : ∀ row ∈ table, row ≠ [])
    (unmarked : (writeRows table).head? ≠ some 0xEF) : (rows (writeRows table)).map (·.cells) = table := by
  have plain : rows (writeRows table) = ({} : Scanner).rows (writeRows table) := by
    unfold rows
    split
    next same => exact absurd (by rw [same]; rfl) unmarked
    next => rfl
  rw [plain, map_cells_rows]
  clear plain unmarked
  induction table with
  | nil => rfl
  | cons row table ih =>
    rw [writeRows, List.flatMap_cons, cellsFrom_writeRow (given row List.mem_cons_self)]
    exact congrArg (row :: ·) (ih fun other mem => given other (List.mem_cons_of_mem row mem))

end SweepPlot.Table
