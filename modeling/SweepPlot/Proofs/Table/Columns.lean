import Mathlib.Data.List.FinRange
import Mathlib.Data.List.OfFn
import Mathlib.Data.List.Nodup
import Mathlib.Tactic.Choose
import SweepPlot.Proofs.Table.Records
set_option autoImplicit false

namespace SweepPlot

namespace Sheet

structure Column (n : Nat) where
  header : String
  cell : Fin n → String

variable {n : Nat} {columns others : List (Column n)}

/-- The table of these columns, its rows on the given lines. -/
def ofColumns (lines : Fin n → Nat) (columns : List (Column n)) : Sheet where
  header := columns.map (·.header)
  body := (List.finRange n).map fun i => .ok (lines i, columns.map (·.cell i))

/-- Columns in another order, with more or fewer of them that are of no field. -/
inductive Rearranged : List (Column n) → List (Column n) → Prop where
  | permute {columns others : List (Column n)} (perm : columns.Perm others) : Rearranged columns others
  | insert (front back : List (Column n)) {column : Column n} (unknown : Field.ofColumn? column.header = none) :
      Rearranged (front ++ back) (front ++ column :: back)
  | delete (front back : List (Column n)) {column : Column n} (unknown : Field.ofColumn? column.header = none) :
      Rearranged (front ++ column :: back) (front ++ back)
  | trans {columns others more : List (Column n)} (first : Rearranged columns others)
      (second : Rearranged others more) : Rearranged columns more

def ColumnsOnce (columns : List (Column n)) : Prop :=
  (columns.filterMap fun column => Field.ofColumn? column.header).Nodup

def known (columns : List (Column n)) : List (Column n) :=
  columns.filter fun column => (Field.ofColumn? column.header).isSome

def column? (columns : List (Column n)) (field : Field) : Option (Column n) :=
  columns.find? fun column => column.header == field.column

/-- What is given for the fields in a row. -/
def given (columns : List (Column n)) (i : Fin n) (field : Field) : Option String :=
  ((column? columns field).map (·.cell i)).filter (· ≠ "")

/-- A table whose rows are all as wide as its header is one of columns. -/
theorem exists_columns {sheet : Sheet} (rectangular : ∀ row ∈ sheet.body, ∃ line cells, row = .ok (line, cells) ∧
    cells.length = sheet.header.length) :
    ∃ (n : Nat) (lines : Fin n → Nat) (columns : List (Column n)), sheet = ofColumns lines columns := by
  have rows : ∀ i : Fin sheet.body.length, ∃ line cells, sheet.body.get i = .ok (line, cells) ∧
      cells.length = sheet.header.length := fun i => rectangular _ (List.get_mem sheet.body i)
  choose lines cells read wide using rows
  refine ⟨sheet.body.length, lines, List.ofFn fun j : Fin sheet.header.length =>
    ⟨sheet.header.get j, fun i => (cells i).get (j.cast (wide i).symm)⟩, ?_⟩
  have header : (List.ofFn fun j : Fin sheet.header.length => sheet.header.get j) = sheet.header :=
    List.ofFn_get sheet.header
  have row : ∀ i, (List.ofFn fun j : Fin sheet.header.length => (cells i).get (j.cast (wide i).symm)) = cells i := by
    intro i
    apply List.ext_getElem
    · rw [List.length_ofFn, wide]
    · intro j _ _
      rw [List.getElem_ofFn]
      rfl
  have body : (List.finRange sheet.body.length).map (fun i => Except.ok (lines i, cells i)) = sheet.body := by
    rw [← List.ofFn_eq_map]
    simp only [← read]
    exact List.ofFn_get sheet.body
  obtain ⟨names, rest⟩ := sheet
  simp only [ofColumns, List.map_ofFn, Function.comp_def, header, row, body]

section Lookup

theorem Rearranged.perm_known (same : Rearranged columns others) : (known columns).Perm (known others) := by
  induction same with
  | permute perm => exact perm.filter _
  | insert front back unknown =>
    rw [known, known, List.filter_append, List.filter_append, List.filter_cons_of_neg (by simp [unknown])]
  | delete front back unknown =>
    rw [known, known, List.filter_append, List.filter_append, List.filter_cons_of_neg (by simp [unknown])]
  | trans _ _ first second => exact first.trans second

theorem column?_known (columns : List (Column n)) (field : Field) :
    column? (known columns) field = column? columns field := by
  rw [column?, column?, known, List.find?_filter]
  congr 1
  funext column
  by_cases own : column.header = field.column
  · simp [own, Field.ofColumn?_column]
  · simp [own]

theorem ColumnsOnce.countP_le (once : ColumnsOnce columns) (field : Field) :
    (known columns).countP (fun column => column.header == field.column) ≤ 1 := by
  have count := List.nodup_iff_count_le_one.mp once field
  rw [List.count_filterMap] at count
  refine le_trans (List.filter_sublist.countP_le) (le_trans (List.countP_mono_left ?_) count)
  intro column _ own
  rw [beq_iff_eq.mp own, Field.ofColumn?_column]
  exact beq_self_eq_true _

theorem Rearranged.column?_eq (same : Rearranged columns others) (once : ColumnsOnce columns) (field : Field) :
    column? columns field = column? others field := by
  have perm := same.perm_known.filter fun column => column.header == field.column
  have few := once.countP_le field
  rw [List.countP_eq_length_filter] at few
  rw [← column?_known columns, ← column?_known others, column?, column?, ← List.head?_filter, ← List.head?_filter]
  congr 1
  -- At most one column is left on each side, so their order is no longer a question.
  generalize (known columns).filter _ = first at perm few
  match first, few with
  | [], _ => exact perm.nil_eq
  | [column], _ => exact perm.singleton_eq

theorem Rearranged.given_eq (same : Rearranged columns others) (once : ColumnsOnce columns) :
    given columns = given others := by
  funext i field
  rw [given, given, same.column?_eq once]

theorem cellOf_ofColumns (columns : List (Column n)) (i : Fin n) :
    cellOf (columns.map (·.header)) (columns.map (·.cell i)) = given columns i := by
  funext field
  exact ResultFile.cellOf_map _ _ columns field

end Lookup

section Reading

variable {lines : Fin n → Nat} {required : List Field} {path : Bytes} {records : Dataset}

theorem isSome_column?_iff {field : Field} :
    (column? columns field).isSome ↔ field.column ∈ columns.map (·.header) := by
  rw [column?, List.find?_isSome, List.mem_map]
  simp only [beq_iff_eq]

theorem accepted_ofColumns_iff : (ofColumns lines columns).Accepted required ↔
    (∀ field ∈ Field.queueType :: required, (column? columns field).isSome) ∧
      ∀ i, Field.Readable (given columns i) := by
  simp only [isSome_column?_iff]
  constructor
  · rintro ⟨-, present, rows⟩
    refine ⟨present, fun i => ?_⟩
    obtain ⟨_, _, ⟨⟩, readable⟩ := rows _ (List.mem_map_of_mem (List.mem_finRange i))
    rwa [ofColumns, cellOf_ofColumns] at readable
  · rintro ⟨present, readable⟩
    -- The queue type's own header is a header that is not blank.
    refine ⟨⟨_, present .queueType List.mem_cons_self, by decide +kernel⟩, present, fun row mem => ?_⟩
    obtain ⟨i, -, rfl⟩ := List.mem_map.mp mem
    refine ⟨_, _, rfl, ?_⟩
    rw [ofColumns, cellOf_ofColumns]
    exact readable i

theorem ofSheet_ofColumns_iff : ResultFile.ofSheet path required (ofColumns lines columns) = .ok records ↔
    ((∀ field ∈ Field.queueType :: required, (column? columns field).isSome) ∧
      ∀ i, Field.Readable (given columns i)) ∧
    records = (List.finRange n).map fun i => Record.ofCells (given columns i) := by
  have settles := ResultFile.ofSheet_settles path required (ofColumns lines columns)
  have gives : ∀ records,
      List.Forall₂ (Gives (ofColumns lines columns).header) (ofColumns lines columns).body records →
      records = (List.finRange n).map fun i => Record.ofCells (given columns i) := by
    intro records each
    rw [ofColumns, List.forall₂_map_left_iff] at each
    rw [← List.forall₂_eq_eq_eq, List.forall₂_map_right_iff]
    refine each.flip.imp ?_
    rintro r i ⟨_, _, ⟨⟩, rfl⟩
    rw [cellOf_ofColumns]
  have clean : (ofColumns lines columns).fault? path required = none ↔
      (∀ field ∈ Field.queueType :: required, (column? columns field).isSome) ∧
        ∀ i, Field.Readable (given columns i) :=
    ResultFile.fault?_eq_none_iff.trans accepted_ofColumns_iff
  rw [← clean]
  constructor
  · intro done
    obtain ⟨sound, each⟩ := settles.of_eq_ok done
    exact ⟨sound, gives records each⟩
  · rintro ⟨sound, rfl⟩
    obtain ⟨records, done, each⟩ := settles.yields sound
    rw [done, gives records each]

end Reading

end Sheet

namespace ResultFile

open Sheet

/-- Neither the order of the columns nor a column of no field decides whether a table is read or as what. -/
theorem ofSheet_rearranged {sheet : Sheet} (rectangular : ∀ row ∈ sheet.body, ∃ line cells,
      row = .ok (line, cells) ∧ cells.length = sheet.header.length)
    (once : (sheet.header.filterMap Field.ofColumn?).Nodup) :
    (∃ (n : Nat) (lines : Fin n → Nat) (columns : List (Column n)), sheet = ofColumns lines columns) ∧
      ∀ (n : Nat) (lines lines' : Fin n → Nat) (columns others : List (Column n)), sheet = ofColumns lines columns →
        Rearranged columns others → ∀ (required : List Field) (path path' : Bytes) (records : Dataset),
          (ofSheet path required sheet = .ok records ↔
            ofSheet path' required (ofColumns lines' others) = .ok records) ∧
          ∀ bytes bytes', Sheet.ofBytes bytes = .ok sheet → Sheet.ofBytes bytes' = .ok (ofColumns lines' others) →
            (ofBytes path required bytes = .ok records ↔ ofBytes path' required bytes' = .ok records) := by
  refine ⟨exists_columns rectangular, ?_⟩
  rintro n lines lines' columns others rfl same required path path' records
  have once : ColumnsOnce columns := by
    rw [ofColumns, List.filterMap_map] at once
    exact once
  have both : ofSheet path required (ofColumns lines columns) = .ok records ↔
      ofSheet path' required (ofColumns lines' others) = .ok records := by
    rw [ofSheet_ofColumns_iff, ofSheet_ofColumns_iff, same.given_eq once]
    simp only [same.column?_eq once]
  refine ⟨both, fun bytes bytes' first second => ?_⟩
  rw [ofBytes, ofBytes, first, second]
  exact both

theorem ofSheet_rearranged_noted :
    ∃ records, ofBytes "a.csv" [.metric .throughput] (Bytes.ofText "Queuetype,Throughput\nlcrq,1.5\n") = .ok records ∧
      ofBytes "b.csv" [.metric .throughput] (Bytes.ofText "\nThroughput,Note,Queuetype\n1.5,x,lcrq\n") = .ok records := by
  let queue : Column 1 := ⟨"Queuetype", fun _ => "lcrq"⟩
  let rate : Column 1 := ⟨"Throughput", fun _ => "1.5"⟩
  let note : Column 1 := ⟨"Note", fun _ => "x"⟩
  let table := ofColumns (fun _ => 2) [queue, rate]
  have rectangular : ∀ row ∈ table.body, ∃ line cells, row = .ok (line, cells) ∧
      cells.length = table.header.length := by
    intro row mem
    obtain ⟨i, -, rfl⟩ := List.mem_map.mp mem
    exact ⟨_, _, rfl, rfl⟩
  have once : (table.header.filterMap Field.ofColumn?).Nodup := by decide +kernel
  have same : Rearranged [queue, rate] [rate, note, queue] :=
    .trans (.permute (.swap rate queue [])) (.insert [rate] [queue] (by decide +kernel))
  have first : Sheet.ofBytes (Bytes.ofText "Queuetype,Throughput\nlcrq,1.5\n") = .ok table := by rfl
  have second : Sheet.ofBytes (Bytes.ofText "\nThroughput,Note,Queuetype\n1.5,x,lcrq\n") =
      .ok (ofColumns (fun _ => 3) [rate, note, queue]) := by rfl
  have done : (ofBytes "a.csv" [.metric .throughput] (Bytes.ofText "Queuetype,Throughput\nlcrq,1.5\n")).isOk := by
    decide +kernel
  obtain ⟨records, done⟩ := exists_eq_ok done
  refine ⟨records, done, ?_⟩
  exact (((ofSheet_rearranged rectangular once).2 1 (fun _ => 2) (fun _ => 3) _ _ rfl same _ _ _ records).2 _ _
    first second).mp done

end ResultFile

end SweepPlot
