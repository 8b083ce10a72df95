import SweepPlot.Proofs.Files.Replace
import SweepPlot.Proofs.Outcome
import SweepPlot.Proofs.Table.Sheet
set_option autoImplicit false

namespace SweepPlot

namespace FileSystem

variable {fs after : FileSystem} {path bytes : Bytes}

theorem isThere_of_readFile {content : Bytes} (there : fs.readFile path = .ok content) : fs.isThere path = true := by
  obtain ⟨location, leads, file⟩ := readFile_eq_ok_iff.mp there
  have found := lookup_eq_ok_iff.mpr ⟨location, leads, Node.itemAt?_eq_file_iff.mp file⟩
  rw [isThere, found]
  rfl

theorem readFile_append_absent (absent : fs.isThere path = false) (done : fs.append path bytes = .ok after) :
    after.readFile path = .ok bytes := by
  obtain ⟨location, old, appended⟩ := append_cases done
  have fresh : old = none := by
    rw [appended.known] at absent
    simpa using absent
  have file := appended.items location
  rw [if_pos rfl, fresh] at file
  exact readFile_eq_ok_iff.mpr ⟨location, appended.leads, file⟩

theorem readFile_append {content : Bytes} (there : fs.readFile path = .ok content)
    (done : fs.append path bytes = .ok after) : after.readFile path = .ok (content ++ bytes) := by
  obtain ⟨location, old, appended⟩ := append_cases done
  obtain ⟨found, leads, file⟩ := readFile_eq_ok_iff.mp there
  obtain ⟨_, place, -, -, -, -, placed, rfl⟩ := writable_cases appended.goes
  obtain rfl : place = .node found := Except.ok.inj (placed.symm.trans leads)
  have same : old = some content := by
    have kept := appended.before.symm.trans file
    cases old with
    | none => cases kept
    | some held => rw [Item.file.inj (Option.some.inj kept)]
  have grown := appended.items found
  rw [same] at grown
  replace grown := grown.trans (if_pos rfl)
  exact readFile_eq_ok_iff.mpr ⟨found, appended.leads, grown⟩

end FileSystem

namespace SummaryTable

section Columns

/-- What stands in a column: a tag, a count or a value of a group, or how many records it has. -/
inductive Column where
  | variant
  | subfolder
  | queueType
  | testId
  | count (sweep : Sweep)
  | metric (m : Metric)
  | records
  deriving DecidableEq

def Column.name : Column → String
  | variant => Field.variantColumn
  | subfolder => Field.subfolderColumn
  | queueType => Field.queueTypeColumn
  | testId => Field.testIdColumn
  | count sweep => sweep.column
  | metric m => m.column
  | records => recordsColumn

def Column.cell (g : Group Float) : Column → String
  | variant => g.variant.getD ""
  | subfolder => g.subfolder.getD ""
  | queueType => g.queue
  | testId => g.testId.getD ""
  | count sweep => ((g.count sweep).map toString).getD ""
  | metric m => ((g.metric m).map Number.positional).getD ""
  | records => toString g.records

def columns (a : Aggregation) (sweep : Sweep) : List Column :=
  [Column.variant, .subfolder, .queueType, .testId, .count sweep] ++ a.metrics.map Column.metric ++ [Column.records]

end Columns

section Batches

/-- What one run adds to the table. -/
structure Batch where
  aggregation : Aggregation
  sweep : Sweep
  groups : List (Group Float)

namespace Batch

def columns (b : Batch) : List Column :=
  SummaryTable.columns b.aggregation b.sweep

def header (b : Batch) : List String :=
  b.columns.map Column.name

def rows (b : Batch) : List (List String) :=
  b.groups.map fun g => b.columns.map (Column.cell g)

theorem rows_eq (b : Batch) (isNew : Bool) :
    SummaryTable.rows b.aggregation b.sweep b.groups isNew = (if isNew then [b.header] else []) ++ b.rows := by
  have header : SummaryTable.header b.aggregation b.sweep = b.header := by
    simp [SummaryTable.header, Batch.header, columns, SummaryTable.columns, Column.name, Function.comp_def]
  have row : row b.aggregation b.sweep = fun g => b.columns.map (Column.cell g) := by
    funext g
    simp [SummaryTable.row, columns, SummaryTable.columns, Column.cell, Function.comp_def]
  rw [SummaryTable.rows, header, row]
  rfl

theorem header_ne_nil (b : Batch) : b.header ≠ [] := by
  simp [header, columns, SummaryTable.columns]

theorem length_of_mem_rows {b : Batch} {cells : List String} (mem : cells ∈ b.rows) :
    cells.length = b.header.length := by
  obtain ⟨g, -, rfl⟩ := List.mem_map.mp mem
  rw [header, List.length_map, List.length_map]

theorem unmarked (b : Batch) (table : List (List String)) : (bytes (b.header :: table)).head? ≠ some 0xEF := by
  have first : ∃ rest, bytes (b.header :: table) = 0x56 :: rest := ⟨_, rfl⟩
  obtain ⟨rest, same⟩ := first
  rw [same, List.head?_cons]
  decide

theorem columns_eq {b first : Batch} (sweep : b.sweep = first.sweep)
    (metrics : b.aggregation.metrics = first.aggregation.metrics) : b.columns = first.columns := by
  rw [columns, columns, SummaryTable.columns, SummaryTable.columns, sweep, metrics]

end Batch

def appendAll (fs : FileSystem) (path : Bytes) (batches : List Batch) : Except Failure FileSystem :=
  batches.foldlM (fun fs b => append fs path b.aggregation b.sweep b.groups) fs

theorem bytes_append (table more : List (List String)) : bytes (table ++ more) = bytes table ++ bytes more := by
  simp [bytes, Table.writeRows]

variable {fs after : FileSystem} {path : Bytes}

theorem append_eq_ok {b : Batch} :
    append fs path b.aggregation b.sweep b.groups = .ok after ↔
      fs.append path (bytes ((if fs.isThere path then [] else [b.header]) ++ b.rows)) = .ok after := by
  unfold append
  rw [mapError_eq_ok, b.rows_eq]
  cases fs.isThere path <;> rfl

theorem readFile_append_first {first : Batch} (absent : fs.isThere path = false)
    (done : append fs path first.aggregation first.sweep first.groups = .ok after) :
    after.readFile path = .ok (bytes (first.header :: first.rows)) := by
  have appended := append_eq_ok.mp done
  rw [absent] at appended
  exact FileSystem.readFile_append_absent absent appended

/-- Later rows stand below the earlier ones, whatever is in the first line. -/
theorem readFile_append_more {b : Batch} {table : List (List String)} (there : fs.readFile path = .ok (bytes table))
    (done : append fs path b.aggregation b.sweep b.groups = .ok after) :
    after.readFile path = .ok (bytes (table ++ b.rows)) := by
  have appended := append_eq_ok.mp done
  rw [FileSystem.isThere_of_readFile there] at appended
  rw [bytes_append]
  exact FileSystem.readFile_append there appended

theorem readFile_appendAll {batches : List Batch} {table : List (List String)}
    (there : fs.readFile path = .ok (bytes table)) (done : appendAll fs path batches = .ok after) :
    after.readFile path = .ok (bytes (table ++ batches.flatMap Batch.rows)) := by
  induction batches generalizing fs table with
  | nil =>
    cases done
    simpa using there
  | cons b batches ih =>
    rw [appendAll, List.foldlM_cons] at done
    obtain ⟨next, now, later⟩ := bind_eq_ok.mp done
    have grown := ih (readFile_append_more there now) later
    rw [List.append_assoc] at grown
    exact grown

theorem readFile_appendAll_absent {first : Batch} {more : List Batch} (absent : fs.isThere path = false)
    (done : appendAll fs path (first :: more) = .ok after) :
    after.readFile path = .ok (bytes (first.header :: (first :: more).flatMap Batch.rows)) := by
  rw [appendAll, List.foldlM_cons] at done
  obtain ⟨next, now, later⟩ := bind_eq_ok.mp done
  exact readFile_appendAll (readFile_append_first absent now) later

theorem rows_wide {first : Batch} {more : List Batch}
    (same : ∀ b ∈ more, b.groups ≠ [] → b.columns = first.columns) :
    ∀ cells ∈ (first :: more).flatMap Batch.rows, cells.length = first.header.length := by
  intro cells present
  obtain ⟨b, mem, present⟩ := List.mem_flatMap.mp present
  rw [Batch.length_of_mem_rows present]
  obtain rfl | mem := List.mem_cons.mp mem
  · rfl
  · obtain ⟨g, one, -⟩ := List.mem_map.mp present
    rw [Batch.header, Batch.header, same b mem (List.ne_nil_of_mem one)]

/-- Runs on a path where nothing was leave a table with the header of the first run and the rows of all, each in
the columns of its own run. If all that have rows sweep the same count and have the same metrics as the first,
these are the columns that the header names, and reading the table never finds it ragged. -/
theorem appendAll_table (fs after : FileSystem) (path : Bytes) (first : Batch) (more : List Batch)
    (absent : fs.isThere path = false) (done : appendAll fs path (first :: more) = .ok after) :
    ∃ content, after.readFile path = .ok content ∧
      (Table.rows content).map (·.cells) =
        (first.columns.map Column.name ::
          (first :: more).flatMap fun b => b.groups.map fun g => b.columns.map (Column.cell g)).map
            (·.map Bytes.ofText) ∧
      ((∀ b ∈ more, b.groups ≠ [] → b.sweep = first.sweep ∧ b.aggregation.metrics = first.aggregation.metrics) →
        (∀ b ∈ more, b.groups ≠ [] → b.columns = first.columns) ∧
        ∀ name required index line byte found width,
          ResultFile.ofBytes name required content ≠
            .error (.malformed name (.ragged index line byte found width))) := by
  refine ⟨_, readFile_appendAll_absent absent done, ?_, fun same => ?_⟩
  · refine Table.rows_writeRows (fun row mem => ?_) (first.unmarked _)
    obtain ⟨cells, present, rfl⟩ := List.mem_map.mp mem
    obtain rfl | present := List.mem_cons.mp present
    · simpa using first.header_ne_nil
    · obtain ⟨b, -, present⟩ := List.mem_flatMap.mp present
      have long := List.length_pos_iff.mpr b.header_ne_nil
      rw [← Batch.length_of_mem_rows present] at long
      simpa using List.ne_nil_of_length_pos long
  · have columns : ∀ b ∈ more, b.groups ≠ [] → b.columns = first.columns := by
      intro b mem given
      obtain ⟨sweep, metrics⟩ := same b mem given
      exact Batch.columns_eq sweep metrics
    refine ⟨columns, fun name required index line byte found width => ?_⟩
    obtain ⟨sheet, read, -, body⟩ :=
      Sheet.ofBytes_written first.header_ne_nil (rows_wide columns) (first.unmarked _)
    unfold ResultFile.ofBytes
    rw [read]
    refine ResultFile.ofSheet_notRagged name required (fun row mem => ?_) index line byte found width
    have present := List.mem_map_of_mem (f := (·.map Prod.snd)) mem
    rw [body] at present
    obtain ⟨cells, -, same⟩ := List.mem_map.mp present
    cases row with
    | ok read => exact ⟨read, rfl⟩
    | error fault => cases same

def sweepRun (throughput : Option Float) : Batch where
  aggregation := .forChart .threads false
  sweep := .threads
  groups := (Aggregation.forChart .threads false).groups
    [{ queue := "mq", counts := ⟨some 2, none, none⟩, metrics := ⟨throughput, none, none, none, none, none⟩ }]

def memoryRun : Batch where
  aggregation := .peakMemory
  sweep := .threads
  groups := Aggregation.peakMemory.groups
    [{ queue := "mq", metrics := ⟨none, none, none, none, some 64.0, none⟩ }]

theorem appendAll_table_sweepTwice : ∃ after content, FileSystem.isThere ⟨.empty, []⟩ "s.csv" = false ∧
    appendAll ⟨.empty, []⟩ "s.csv" [sweepRun (some 3.0), sweepRun none] = .ok after ∧
    after.readFile "s.csv" = .ok content ∧
    ∀ name required index line byte found width,
      ResultFile.ofBytes name required content ≠ .error (.malformed name (.ragged index line byte found width)) := by
  have absent : FileSystem.isThere ⟨.empty, []⟩ "s.csv" = false := by decide +kernel
  have appends : (appendAll ⟨.empty, []⟩ "s.csv" [sweepRun (some 3.0), sweepRun none]).isOk = true := by decide +kernel
  obtain ⟨after, done⟩ := exists_eq_ok appends
  obtain ⟨content, read, -, even⟩ :=
    appendAll_table ⟨.empty, []⟩ after "s.csv" (sweepRun (some 3.0)) [sweepRun none] absent done
  have alike : ∀ b ∈ [sweepRun none], b.groups ≠ [] → b.sweep = (sweepRun (some 3.0)).sweep ∧
      b.aggregation.metrics = (sweepRun (some 3.0)).aggregation.metrics := by
    intro b mem _
    rw [List.mem_singleton.mp mem]
    exact ⟨rfl, rfl⟩
  exact ⟨after, content, absent, done, read, (even alike).2⟩

theorem appendAll_ragged : ∃ after content, FileSystem.isThere ⟨.empty, []⟩ "s.csv" = false ∧
    appendAll ⟨.empty, []⟩ "s.csv" [sweepRun (some 3.0), memoryRun] = .ok after ∧ after.readFile "s.csv" = .ok content ∧
    ResultFile.ofBytes "s.csv" [] content = .error (.malformed "s.csv" (.ragged 2 3 142 7 12)) := by
  have absent : FileSystem.isThere ⟨.empty, []⟩ "s.csv" = false := by decide +kernel
  have appends : (appendAll ⟨.empty, []⟩ "s.csv" [sweepRun (some 3.0), memoryRun]).isOk = true := by decide +kernel
  obtain ⟨after, done⟩ := exists_eq_ok appends
  exact ⟨after, _, absent, done, readFile_appendAll_absent absent done, by decide +kernel⟩

end Batches

end SummaryTable

end SweepPlot
