import Mathlib.Tactic.Choose
import SweepPlot.Proofs.Table.Records
import SweepPlot.Proofs.Table.Text
import SweepPlot.Proofs.Table.Written
import SweepPlot.SummaryTable
set_option autoImplicit false

namespace SweepPlot

theorem Table.cellTexts_of_text? {cells : List Bytes} {texts : List String}
    (read : cells.map Bytes.text? = texts.map some) : cellTexts cells = .ok texts := by
  unfold cellTexts
  generalize 0 = index
  induction cells generalizing texts index with
  | nil =>
    obtain rfl : texts = [] := by simpa using read.symm
    rfl
  | cons cell cells ih =>
    cases texts with
    | nil => cases read
    | cons text texts =>
      obtain ⟨first, others⟩ := List.cons.inj read
      rw [cellTexts.go, first, ih others]
      rfl

theorem Table.cellTexts_ofText (cells : List String) : cellTexts (cells.map Bytes.ofText) = .ok cells := by
  apply cellTexts_of_text?
  rw [List.map_map]
  exact List.map_congr_left fun cell _ => Bytes.text?_ofText cell

theorem Table.cellTexts_trim_ofText (cells : List String) :
    ∃ texts, cellTexts ((cells.map Bytes.ofText).map Bytes.trim) = .ok texts ∧
      texts.map Text.trim = cells.map Text.trim := by
  choose text read same using Bytes.text?_trim_ofText
  refine ⟨cells.map text, cellTexts_of_text? ?_, ?_⟩
  · rw [List.map_map, List.map_map, List.map_map]
    exact List.map_congr_left fun cell _ => read cell
  · rw [List.map_map]
    exact List.map_congr_left fun cell _ => same cell

namespace Sheet

theorem readRow_ofText {width : Nat} {cells : List String} (wide : cells.length = width) {row : Table.Row}
    (written : row.cells = cells.map Bytes.ofText) (index : Nat) :
    readRow width index row = .ok (row.opened.line, cells.map Text.trim) := by
  obtain ⟨texts, read, same⟩ := Table.cellTexts_trim_ofText cells
  unfold readRow
  rw [written, List.length_map, if_neg (not_not.mpr wide), read]
  exact congrArg (fun cells => Except.ok (row.opened.line, cells)) same

theorem readRows_ofText {width : Nat} {table : List (List String)} (wide : ∀ cells ∈ table, cells.length = width)
    {rows : List Table.Row} (written : rows.map (·.cells) = table.map fun cells => cells.map Bytes.ofText)
    (index : Nat) :
    (readRows width index rows).map (·.map Prod.snd) = table.map fun cells => .ok (cells.map Text.trim) := by
  induction rows generalizing table index with
  | nil =>
    obtain rfl : table = [] := by simpa using written.symm
    rfl
  | cons row rows ih =>
    cases table with
    | nil => cases written
    | cons cells table =>
      obtain ⟨first, others⟩ := List.cons.inj written
      rw [readRows, List.map_cons, readRow_ofText (wide cells List.mem_cons_self) first,
        ih (fun other mem => wide other (List.mem_cons_of_mem cells mem)) others]
      rfl

/-- A table whose rows are as wide as its header is read as it was written, its cells trimmed. -/
theorem ofBytes_written {header : List String} {table : List (List String)} (given : header ≠ [])
    (wide : ∀ cells ∈ table, cells.length = header.length)
    (unmarked : (SummaryTable.bytes (header :: table)).head? ≠ some 0xEF) :
    ∃ sheet, ofBytes (SummaryTable.bytes (header :: table)) = .ok sheet ∧ sheet.header = header ∧
      sheet.body.map (·.map Prod.snd) = table.map fun cells => .ok (cells.map Text.trim) := by
  have solid : ∀ row ∈ (header :: table).map fun cells => cells.map Bytes.ofText, row ≠ [] := by
    intro row mem
    obtain ⟨cells, present, rfl⟩ := List.mem_map.mp mem
    obtain rfl | present := List.mem_cons.mp present
    · simpa using given
    · have long := List.length_pos_iff.mpr given
      rw [← wide cells present] at long
      simpa using List.ne_nil_of_length_pos long
  have written := Table.rows_writeRows solid unmarked
  unfold ofBytes SummaryTable.bytes
  generalize Table.rows _ = rows at written
  cases rows with
  | nil => cases written
  | cons head rows =>
    obtain ⟨first, others⟩ := List.cons.inj written
    have named : Table.cellTexts head.cells = .ok header :=
      (congrArg Table.cellTexts first).trans (Table.cellTexts_ofText header)
    refine ⟨⟨header, readRows header.length 1 rows⟩, ?_, rfl, readRows_ofText wide others 1⟩
    dsimp only
    rw [named]

end Sheet

namespace ResultFile

theorem ofSheet_notRagged (path : Bytes) (required : List Field) {sheet : Sheet}
    (whole : ∀ row ∈ sheet.body, ∃ cells, row = .ok cells) (index line byte found width : Nat) :
    ofSheet path required sheet ≠ .error (.malformed path (.ragged index line byte found width)) := by
  intro refused
  have fault := (ofSheet_settles path required sheet).eq_error_iff.mp refused
  rw [Sheet.fault?] at fault
  split at fault
  · cases fault
  · obtain column | ⟨-, row⟩ := Option.or_eq_some_iff.mp fault
    · obtain ⟨field, -, same⟩ := Option.map_eq_some_iff.mp column
      cases same
    · obtain ⟨own, first, same⟩ := Option.map_eq_some_iff.mp row
      cases own with
      | io cause => cases same
      | table fault =>
        cases same
        obtain ⟨row, mem, ragged⟩ := List.exists_of_findSome?_eq_some first
        obtain ⟨cells, rfl⟩ := whole row mem
        exact rowFault?_ne_ragged cells ragged

end ResultFile

end SweepPlot
