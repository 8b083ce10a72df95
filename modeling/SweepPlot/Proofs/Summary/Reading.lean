import SweepPlot.Proofs.Aggregation.Reference
import SweepPlot.Proofs.Number.RoundTrip
import SweepPlot.Proofs.Summary.Table
import SweepPlot.Proofs.Table.Loaded
set_option autoImplicit false

namespace SweepPlot

def Group.Clean (g : Group Float) : Prop :=
  Record.Clean { queue := g.queue, testId := g.testId, counts := g.counts }

theorem Aggregation.clean_of_mem_groups {a : Aggregation} (once : a.metrics.Nodup) {d : Dataset}
    (read : ∀ r ∈ d, r.IsRead) {g : Group Float} (mem : g ∈ a.groups d) : g.Clean := by
  obtain ⟨r, present, -, queue, -, -, testId, counts⟩ := origin_of_mem_groups once mem
  have clean := (read r present).clean
  unfold Group.Clean
  rw [queue, testId, counts]
  exact ⟨clean.queue, clean.testId, clean.counts⟩

namespace SummaryTable

section Fields

def Column.field? : Column → Option Field
  | queueType => some .queueType
  | testId => some .testId
  | count sweep => some (.count sweep)
  | metric m => some (.metric m)
  | variant | subfolder | records => none

theorem Column.ofColumn?_name (c : Column) : Field.ofColumn? c.name = c.field? := by
  cases c with
  | queueType => exact Field.ofColumn?_column .queueType
  | testId => exact Field.ofColumn?_column .testId
  | count sweep => exact Field.ofColumn?_column (.count sweep)
  | metric m => exact Field.ofColumn?_column (.metric m)
  | variant | subfolder | records => decide +kernel

def Column.ofField : Field → Column
  | .queueType => queueType
  | .testId => testId
  | .count sweep => count sweep
  | .metric m => metric m

theorem Column.name_eq_iff {c : Column} {field : Field} : c.name = field.column ↔ c = .ofField field := by
  rw [← Field.ofColumn?_eq_some_iff, ofColumn?_name]
  cases c <;> cases field <;> simp [field?, ofField]

def fields (a : Aggregation) (sweep : Sweep) : List Field :=
  [.queueType, .testId, .count sweep] ++ a.metrics.map .metric

theorem ofField_mem_columns {a : Aggregation} {sweep : Sweep} {field : Field} :
    Column.ofField field ∈ columns a sweep ↔ field ∈ fields a sweep := by
  cases field <;> simp [columns, fields, Column.ofField]

theorem find?_columns (a : Aggregation) (sweep : Sweep) (field : Field) :
    ((columns a sweep).find? fun c => c.name == field.column) =
      if field ∈ fields a sweep then some (.ofField field) else none := by
  cases found : (columns a sweep).find? fun c => c.name == field.column with
  | none =>
    rw [if_neg]
    intro mem
    refine List.find?_eq_none.mp found _ (ofField_mem_columns.mpr mem) (beq_iff_eq.mpr ?_)
    exact Column.name_eq_iff.mpr rfl
  | some c =>
    have own := List.find?_some found
    rw [beq_iff_eq, Column.name_eq_iff] at own
    subst own
    rw [if_pos (ofField_mem_columns.mp (List.mem_of_find?_eq_some found))]

end Fields

section Cells

variable {g : Group Float} {a : Aggregation} {sweep : Sweep}

/-- What a table says of a field of a group, if there is anything to say. -/
def written? (g : Group Float) : Field → Option String
  | .queueType => some g.queue
  | .testId => g.testId
  | .count sweep => (g.count sweep).map toString
  | .metric m => (g.metric m).map Number.positional

theorem cell_ofField (g : Group Float) (field : Field) : (Column.ofField field).cell g = (written? g field).getD "" := by
  cases field <;> rfl

theorem trimmed_of_written? (clean : g.Clean) {field : Field} {text : String} (wrote : written? g field = some text) :
    Text.Trimmed text := by
  cases field with
  | queueType =>
    cases wrote
    exact clean.queue
  | testId => exact clean.testId text wrote
  | count sweep =>
    obtain ⟨v, has, rfl⟩ := Option.map_eq_some_iff.mp wrote
    exact ⟨Number.toString_ne_empty (clean.counts sweep v has), Number.trim_toString v⟩
  | metric m =>
    obtain ⟨v, -, rfl⟩ := Option.map_eq_some_iff.mp wrote
    exact ⟨Number.positional_ne_empty v, Number.trim_positional v⟩

theorem count?_written? (clean : g.Clean) (sweep : Sweep) :
    (written? g (.count sweep)).bind Number.count? = g.count sweep := by
  rw [written?]
  cases has : g.count sweep with
  | none => rfl
  | some v =>
    rw [Option.map_some, Option.bind_some, Number.count?, Number.integer?_toString (clean.counts sweep v has)]

theorem number?_written? (g : Group Float) (m : Metric) :
    (written? g (.metric m)).bind Number.number? = g.metric m := by
  rw [written?]
  cases g.metric m with
  | none => rfl
  | some v => exact Number.number?_positional v

theorem cellOf_row (clean : g.Clean) :
    Sheet.cellOf ((columns a sweep).map Column.name) ((columns a sweep).map fun c => Text.trim (c.cell g)) =
      Field.only (fields a sweep) (written? g) := by
  have trim_empty : Text.trim "" = "" := by decide
  funext field
  rw [ResultFile.cellOf_map, find?_columns, Field.only]
  split
  · rw [Option.map_some, cell_ofField]
    cases wrote : written? g field with
    | none => rw [Option.getD_none, trim_empty, Option.filter_some, if_neg (by simp)]
    | some text =>
      have trimmed := trimmed_of_written? clean wrote
      rw [Option.getD_some, trimmed.trimmed, Option.filter_some, if_pos (decide_eq_true trimmed.given)]
  · rfl

theorem readable_row (clean : g.Clean) : Field.Readable (Field.only (fields a sweep) (written? g)) where
  queue := nofun
  cells := by
    intro field text given
    obtain ⟨-, wrote⟩ := Option.ite_none_right_eq_some.mp given
    cases field with
    | queueType | testId => rfl
    | count s =>
      have reads := count?_written? clean s
      obtain ⟨v, has, -⟩ := Option.map_eq_some_iff.mp wrote
      rw [wrote, has] at reads
      exact Option.isSome_of_eq_some reads
    | metric m =>
      have reads := number?_written? g m
      obtain ⟨v, has, -⟩ := Option.map_eq_some_iff.mp wrote
      rw [wrote, has] at reads
      exact Option.isSome_of_eq_some reads

end Cells

section Rows

/-- What is read back of a group. -/
def reread (a : Aggregation) (sweep : Sweep) (g : Group Float) : Record Float where
  queue := g.queue
  testId := g.testId
  counts := .ofFn fun s => if s = sweep then g.count s else none
  metrics := .ofFn fun m => if m ∈ a.metrics then g.metric m else none

variable {g : Group Float} {a : Aggregation} {sweep : Sweep}

theorem ofCells_row (clean : g.Clean) :
    Record.ofCells (Field.only (fields a sweep) (written? g)) = reread a sweep g := by
  have counts : ∀ s, (Field.only (fields a sweep) (written? g) (.count s)).bind Number.count? =
      if s = sweep then g.count s else none := by
    intro s
    by_cases same : s = sweep <;> simp [Field.only, fields, same, count?_written? clean]
  have metrics : ∀ m, (Field.only (fields a sweep) (written? g) (.metric m)).bind Number.number? =
      if m ∈ a.metrics then g.metric m else none := by
    intro m
    by_cases mem : m ∈ a.metrics <;> simp [Field.only, fields, mem, number?_written?]
  rw [Record.ofCells, funext counts, funext metrics]
  rfl

theorem ofSheet_rows {groups : List (Group Float)} (clean : ∀ g ∈ groups, g.Clean) {sheet : Sheet}
    (header : sheet.header = (columns a sweep).map Column.name)
    (written : sheet.body.map (·.map Prod.snd) =
      groups.map fun g => .ok (((columns a sweep).map (Column.cell g)).map Text.trim))
    (path : Bytes) {required : List Field} (known : ∀ field ∈ required, field ∈ fields a sweep) :
    ResultFile.ofSheet path required sheet = .ok (groups.map (reread a sweep)) := by
  have rows : List.Forall₂ (fun g row => ∃ line, row = .ok (line, (columns a sweep).map fun c => Text.trim (c.cell g)))
      groups sheet.body := by
    have each : List.Forall₂ (· = ·) (groups.map _) (sheet.body.map _) := List.forall₂_eq_eq_eq ▸ written.symm
    rw [List.forall₂_map_left_iff, List.forall₂_map_right_iff] at each
    refine each.imp fun g row same => ?_
    obtain ⟨⟨line, cells⟩, rfl, own⟩ := map_eq_ok.mp same.symm
    rw [List.map_map] at own
    exact ⟨line, congrArg (fun cells => Except.ok (line, cells)) own⟩
  have accepted : sheet.Accepted required := by
    refine ⟨⟨Field.variantColumn, ?_, by decide⟩, fun field mem => ?_, fun row mem => ?_⟩
    · rw [header]
      exact List.mem_cons_self
    · have has : field ∈ fields a sweep := by
        obtain rfl | mem := List.mem_cons.mp mem
        · exact List.mem_cons_self
        · exact known field mem
      rw [header]
      exact List.mem_map.mpr ⟨.ofField field, ofField_mem_columns.mpr has, Column.name_eq_iff.mpr rfl⟩
    · obtain ⟨g, present, line, rfl⟩ := exists_mem_of_forall₂ rows mem
      refine ⟨line, _, rfl, ?_⟩
      rw [header, cellOf_row (clean g present)]
      exact readable_row (clean g present)
  have settles := ResultFile.ofSheet_settles path required sheet
  obtain ⟨records, done, gives⟩ := settles.yields (ResultFile.fault?_eq_none_iff.mpr accepted)
  have own : List.Forall₂ (Sheet.Gives sheet.header) sheet.body (groups.map (reread a sweep)) := by
    refine List.forall₂_map_right_iff.mpr (((List.forall₂_and_left _ _).mpr ⟨clean, rows⟩).flip.imp ?_)
    rintro _ g ⟨clean, line, rfl⟩
    rw [header]
    exact ⟨line, _, rfl, ((congrArg Record.ofCells (cellOf_row clean)).trans (ofCells_row clean)).symm⟩
  obtain rfl := List.right_unique_forall₂' (fun _ _ _ first second => first.unique second) gives own
  exact done

end Rows

section Runs

theorem Batch.ofBytes_table {b : Batch} (clean : ∀ g ∈ b.groups, g.Clean)
    (path : Bytes) {required : List Field} (known : ∀ field ∈ required, field ∈ fields b.aggregation b.sweep) :
    ResultFile.ofBytes path required (bytes (b.header :: b.rows)) =
      .ok (b.groups.map (reread b.aggregation b.sweep)) := by
  have wide : ∀ cells ∈ b.rows, cells.length = b.header.length := by
    intro cells mem
    exact length_of_mem_rows mem
  obtain ⟨sheet, opened, header, body⟩ := Sheet.ofBytes_written b.header_ne_nil wide (b.unmarked b.rows)
  rw [rows, List.map_map] at body
  unfold ResultFile.ofBytes
  rw [opened]
  exact ofSheet_rows clean header body path known

theorem readFile_appendAll_runs {fs after : FileSystem} {path : Bytes} {a : Aggregation} {sweep : Sweep}
    {runs : List Dataset} (given : runs ≠ []) (absent : fs.isThere path = false)
    (done : appendAll fs path (runs.map fun d => ⟨a, sweep, a.groups d⟩) = .ok after) :
    after.readFile path =
      .ok (bytes (Batch.header ⟨a, sweep, runs.flatMap a.groups⟩ :: Batch.rows ⟨a, sweep, runs.flatMap a.groups⟩)) := by
  have rows : (runs.map fun d => (⟨a, sweep, a.groups d⟩ : Batch)).flatMap Batch.rows =
      Batch.rows ⟨a, sweep, runs.flatMap a.groups⟩ := by
    rw [Batch.rows, List.flatMap_map, List.map_flatMap]
    rfl
  obtain ⟨d, more, rfl⟩ := List.exists_cons_of_ne_nil given
  rw [List.map_cons] at done rows
  have written := readFile_appendAll_absent absent done
  rw [rows] at written
  exact written

/-- Runs with one kind of reduced values on a path where nothing was leave a result file with all fields of these
values. It is read as one record for each group of the runs, in turn, and this has what the group has. -/
theorem appendAll_roundTrip (fs after : FileSystem) (path : Bytes) (a : Aggregation) (once : a.metrics.Nodup)
    (sweep : Sweep) (runs : List Dataset) (given : runs ≠ []) (read : ∀ d ∈ runs, ∀ r ∈ d, r.IsRead)
    (absent : fs.isThere path = false)
    (done : appendAll fs path (runs.map fun d => ⟨a, sweep, a.groups d⟩) = .ok after) :
    ∃ content, after.readFile path = .ok content ∧
      ∀ name required, (∀ field ∈ required, field ∈ fields a sweep) →
        ResultFile.ofBytes name required content = .ok ((runs.flatMap a.groups).map (reread a sweep)) := by
  have clean : ∀ g ∈ runs.flatMap a.groups, g.Clean := by
    intro g mem
    obtain ⟨d, present, mem⟩ := List.mem_flatMap.mp mem
    exact Aggregation.clean_of_mem_groups once (read d present) mem
  refine ⟨_, readFile_appendAll_runs given absent done, fun name required known => ?_⟩
  exact Batch.ofBytes_table clean name known

def quotedResults : Bytes :=
  Bytes.ofText "Queuetype,Test ID,Thread Count,Throughput\n\"mq, \"\"fast\"\"\",t1,2,2.5\nplain,,4,\n"

def quotedRun (subfolder : Option String) : Dataset :=
  [{ queue := "mq, \"fast\"", counts := ⟨some 2, none, none⟩, testId := some "t1"
     metrics := ⟨some 2.5, none, none, none, none, none⟩, subfolder := subfolder },
   { queue := "plain", counts := ⟨some 4, none, none⟩, subfolder := subfolder }]

theorem isRead_quotedRun (subfolder : Option String) : ∀ r ∈ quotedRun subfolder, r.IsRead := by
  have loaded : (ResultFile.ofBytes "q.csv" [] quotedResults).toOption = some (quotedRun none) := by decide +kernel
  have tagged : quotedRun subfolder = (quotedRun none).map fun r => { r with subfolder := subfolder } := rfl
  intro r mem
  rw [tagged] at mem
  obtain ⟨read, origin, rfl⟩ := List.mem_map.mp mem
  exact ⟨"q.csv", [], quotedResults, quotedRun none, toOption_eq_some.mp loaded, read, origin, rfl⟩

theorem appendAll_roundTrip_quoted : ∃ after content, FileSystem.isThere ⟨.empty, []⟩ "s.csv" = false ∧
    (∀ d ∈ [quotedRun none, quotedRun (some "road")], ∀ r ∈ d, r.IsRead) ∧
    appendAll ⟨.empty, []⟩ "s.csv" ([quotedRun none, quotedRun (some "road")].map fun d =>
      ⟨.forChart .threads true, .threads, (Aggregation.forChart .threads true).groups d⟩) = .ok after ∧
    after.readFile "s.csv" = .ok content ∧
    ResultFile.ofBytes "s.csv" [.testId, .metric .memory] content = .ok (quotedRun none ++ quotedRun none) := by
  have absent : FileSystem.isThere ⟨.empty, []⟩ "s.csv" = false := by decide +kernel
  have read : ∀ d ∈ [quotedRun none, quotedRun (some "road")], ∀ r ∈ d, r.IsRead := by
    simp only [List.forall_mem_cons]
    exact ⟨isRead_quotedRun none, isRead_quotedRun _, nofun⟩
  have appends : (appendAll ⟨.empty, []⟩ "s.csv" ([quotedRun none, quotedRun (some "road")].map fun d =>
      ⟨.forChart .threads true, .threads, (Aggregation.forChart .threads true).groups d⟩)).isOk = true := by
    decide +kernel
  obtain ⟨after, done⟩ := exists_eq_ok appends
  obtain ⟨content, there, reads⟩ := appendAll_roundTrip ⟨.empty, []⟩ after "s.csv" (.forChart .threads true)
    (by decide) .threads [quotedRun none, quotedRun (some "road")] nofun read absent done
  refine ⟨after, content, absent, read, done, there, ?_⟩
  rw [reads "s.csv" [.testId, .metric .memory] (by decide)]
  decide +kernel

end Runs

end SummaryTable

end SweepPlot
