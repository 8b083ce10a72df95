import SweepPlot.Proofs.Outcome
import SweepPlot.ResultFile
set_option autoImplicit false

namespace SweepPlot

namespace Field

theorem ofColumn?_eq_some_iff {name : String} {field : Field} :
    ofColumn? name = some field ↔ name = field.column := by
  constructor
  · intro known
    exact (column_of_ofColumn? known).symm
  · rintro rfl
    exact ofColumn?_column field

theorem column_injective : Function.Injective column := by
  intro field other same
  have known := ofColumn?_column other
  rw [← same, ofColumn?_column] at known
  exact Option.some.inj known

def fault? (line : Nat) (field : Field) (cell : String) : Option TableFault :=
  match field with
  | .queueType | .testId => none
  | .count sweep => if (Number.count? cell).isNone then some (.notInteger line cell sweep) else none
  | .metric m => if (Number.number? cell).isNone then some (.notNumeric line cell m) else none

/-- Counts are integers and metrics are numbers, and any text is a queue type or a test id. -/
def accepts (field : Field) (cell : String) : Bool :=
  match field with
  | .queueType | .testId => true
  | .count _ => (Number.count? cell).isSome
  | .metric _ => (Number.number? cell).isSome

/-- The queue type is given, and whatever is given can be read. -/
structure Readable (read : Field → Option String) : Prop where
  queue : read .queueType ≠ none
  cells : ∀ field cell, read field = some cell → field.accepts cell = true

theorem fault?_eq_none_iff {line : Nat} {field : Field} {cell : String} :
    field.fault? line cell = none ↔ field.accepts cell = true := by
  cases field <;> simp [fault?, accepts, Option.isSome_iff_ne_none]

def only (fields : List Field) (read : Field → Option String) (field : Field) : Option String :=
  if field ∈ fields then read field else none

theorem only_nil (read : Field → Option String) (field : Field) : only [] read field = none :=
  if_neg List.not_mem_nil

theorem only_cons_of_eq_none {read : Field → Option String} {field : Field} (absent : read field = none)
    (fields : List Field) : only (field :: fields) read = only fields read := by
  funext other
  by_cases same : other = field <;> simp [only, same, absent]

theorem only_of_eq_none {read : Field → Option String} {fields : List Field}
    (absent : ∀ field, field ∉ fields → read field = none) : only fields read = read := by
  funext field
  by_cases mem : field ∈ fields
  · exact if_pos mem
  · exact (if_neg mem).trans (absent field mem).symm

end Field

namespace Record

/-- The record of a row: its texts as they are, its counts and metrics as numbers. -/
def ofCells (read : Field → Option String) : Record Float where
  queue := (read .queueType).getD ""
  testId := read .testId
  counts := .ofFn fun sweep => (read (.count sweep)).bind Number.count?
  metrics := .ofFn fun m => (read (.metric m)).bind Number.number?

/-- The record with what is read for its fields, and what it has where nothing is. -/
def fill (read : Field → Option String) (r : Record Float) : Record Float :=
  { r with
    testId := (read .testId).or r.testId
    counts := .ofFn fun sweep => ((read (.count sweep)).bind Number.count?).or (r.count sweep)
    metrics := .ofFn fun m => ((read (.metric m)).bind Number.number?).or (r.metric m) }

variable {read : Field → Option String} {r s : Record Float}

theorem count_fill (read : Field → Option String) (r : Record Float) (sweep : Sweep) :
    (r.fill read).count sweep = ((read (.count sweep)).bind Number.count?).or (r.count sweep) :=
  PerSweep.get_ofFn _ sweep

theorem metric_fill (read : Field → Option String) (r : Record Float) (m : Metric) :
    (r.fill read).metric m = ((read (.metric m)).bind Number.number?).or (r.metric m) :=
  PerMetric.get_ofFn _ m

theorem fill_eq (queue : s.queue = r.queue) (testId : s.testId = (read .testId).or r.testId)
    (counts : ∀ sweep, s.count sweep = ((read (.count sweep)).bind Number.count?).or (r.count sweep))
    (metrics : ∀ m, s.metric m = ((read (.metric m)).bind Number.number?).or (r.metric m))
    (tags : s.subfolder = r.subfolder ∧ s.variant = r.variant ∧ s.source = r.source) : r.fill read = s := by
  obtain ⟨subfolder, variant, source⟩ := tags
  have sameCounts : (r.fill read).counts = s.counts := by
    apply PerSweep.ext_get
    intro sweep
    exact (count_fill read r sweep).trans (counts sweep).symm
  have sameMetrics : (r.fill read).metrics = s.metrics := by
    apply PerMetric.ext_get
    intro m
    exact (metric_fill read r m).trans (metrics m).symm
  cases s
  simp_all [fill]

theorem fill_none (absent : ∀ field, read field = none) : r.fill read = r := by
  apply fill_eq <;> simp [absent]

theorem fill_fresh {queue : String} (named : read .queueType = some queue) :
    fill read { queue := queue } = ofCells read := by
  apply fill_eq
  · rw [ofCells, named]
    rfl
  · exact (Option.or_none ..).symm
  · intro sweep
    rw [count, ofCells, PerSweep.get_ofFn]
    cases sweep <;> exact (Option.or_none ..).symm
  · intro m
    rw [metric, ofCells, PerMetric.get_ofFn]
    cases m <;> exact (Option.or_none ..).symm
  · exact ⟨rfl, rfl, rfl⟩

theorem fill_fill (fields others : List Field) (read : Field → Option String) (r : Record Float) :
    (r.fill (Field.only fields read)).fill (Field.only others read) = r.fill (Field.only (fields ++ others) read) := by
  have merged : ∀ {β : Type} (f : String → Option β) (old : Option β) (field : Field),
      ((Field.only (fields ++ others) read field).bind f).or old =
        ((Field.only others read field).bind f).or (((Field.only fields read field).bind f).or old) := by
    intro β f old field
    by_cases first : field ∈ fields <;> by_cases later : field ∈ others <;> simp [Field.only, first, later]
    rw [← Option.or_assoc, Option.or_self]
  symm
  apply fill_eq
  · rfl
  · have text := merged some r.testId .testId
    rw [Option.bind_fun_some, Option.bind_fun_some, Option.bind_fun_some] at text
    exact text.symm
  · intro sweep
    rw [count_fill, count_fill, merged]
  · intro m
    rw [metric_fill, metric_fill, merged]
  · exact ⟨rfl, rfl, rfl⟩

end Record

namespace Sheet

/-- Where the first header of the field stands. -/
def index? (header : List String) (field : Field) : Option Nat :=
  header.findIdx? fun name => name == field.column

/-- The cell under the first header of the field, unless it is empty. -/
def cellOf (header cells : List String) (field : Field) : Option String :=
  ((index? header field).bind (cells[·]?)).filter (· ≠ "")

def fields (header : List String) : List Field :=
  distinct (header.filterMap Field.ofColumn?)

/-- What is wrong with the cells of a row: the queue type first, then the others. -/
def cellFault? (header : List String) (line : Nat) (cells : List String) : Option TableFault :=
  if cellOf header cells .queueType = none then some (.emptyQueue line)
  else (fields header).findSome? fun field => (cellOf header cells field).bind (field.fault? line)

def rowFault? (header : List String) : Except RowFault (Nat × List String) → Option RowFault
  | .error fault => some fault
  | .ok (line, cells) => (cellFault? header line cells).map .table

/-- What is wrong with a sheet: the header first, then the columns it must have, then the rows. -/
def fault? (path : Bytes) (required : List Field) (sheet : Sheet) : Option Failure :=
  if sheet.header.all Text.isBlankText then some (.malformed path .noHeader)
  else
    (((Field.queueType :: required).find? fun field => decide (field.column ∉ sheet.header)).map
      (.missingColumn path)).or
    ((sheet.body.findSome? (rowFault? sheet.header)).map (RowFault.failure path))

def readerFault? (path : Bytes) (required : List Field) : Except RowFault Sheet → Option Failure
  | .error fault => some (fault.failure path)
  | .ok sheet => sheet.fault? path required

/-- The sheet has a header with the columns it must have, and all rows can be read. -/
structure Accepted (required : List Field) (sheet : Sheet) : Prop where
  titled : ∃ name ∈ sheet.header, Text.isBlankText name = false
  present : ∀ field ∈ Field.queueType :: required, field.column ∈ sheet.header
  rows : ∀ row ∈ sheet.body, ∃ line cells, row = .ok (line, cells) ∧ Field.Readable (cellOf sheet.header cells)

/-- The record of a row. -/
def Gives (header : List String) (row : Except RowFault (Nat × List String)) (r : Record Float) : Prop :=
  ∃ line cells, row = .ok (line, cells) ∧ r = Record.ofCells (cellOf header cells)

theorem Gives.unique {header : List String} {row : Except RowFault (Nat × List String)} {r s : Record Float}
    (first : Gives header row r) (second : Gives header row s) : r = s := by
  obtain ⟨_, _, rfl, rfl⟩ := first
  obtain ⟨_, _, ⟨⟩, rfl⟩ := second
  rfl

/-- The cells agree in every column that is the first of a field. -/
def SameCells (header cells others : List String) : Prop :=
  ∀ field index, index? header field = some index → cells[index]? = others[index]?

inductive SameRow (header : List String) : (row other : Except RowFault (Nat × List String)) → Prop where
  | error (fault : RowFault) : SameRow header (.error fault) (.error fault)
  | ok {line : Nat} {cells others : List String} (same : SameCells header cells others) :
      SameRow header (.ok (line, cells)) (.ok (line, others))

end Sheet

namespace ResultFile

variable {line index : Nat} {cells header : List String} {r : Record Float} {field : Field}

section Columns

theorem mem_fields : field ∈ Sheet.fields header ↔ field.column ∈ header := by
  rw [Sheet.fields, mem_distinct, List.mem_filterMap]
  simp only [Field.ofColumn?_eq_some_iff, exists_eq_right]

theorem index?_cons_of_ne {name : String} (differ : name ≠ field.column) (start : Nat) (names : List String) :
    (Sheet.index? (name :: names) field).map (start + ·) = (Sheet.index? names field).map (start + 1 + ·) := by
  rw [Sheet.index?, Sheet.index?, List.findIdx?_cons, if_neg (by simpa using differ), Option.map_map]
  congr 1
  funext i
  exact Nat.add_right_comm start i 1

theorem index?_of_mem_columnsFrom {seen : List Field} {start : Nat} {names : List String}
    (mem : (index, field) ∈ columnsFrom seen start names) :
    field ∉ seen ∧ (Sheet.index? names field).map (start + ·) = some index := by
  -- A header that is passed over is not the one of the field: what is listed later was not seen before.
  induction names generalizing seen start with
  | nil => cases mem
  | cons name names ih =>
    rw [columnsFrom] at mem
    cases known : Field.ofColumn? name with
    | none =>
      rw [known] at mem
      have differ : name ≠ field.column := fun same => by
        rw [Field.ofColumn?_eq_some_iff.mpr same] at known
        cases known
      rw [index?_cons_of_ne differ]
      exact ih mem
    | some own =>
      rw [known] at mem
      obtain rfl := Field.ofColumn?_eq_some_iff.mp known
      dsimp only at mem
      split at mem
      next old =>
        obtain ⟨fresh, found⟩ := ih mem
        have differ : own ≠ field := fun same => fresh (same ▸ old)
        refine ⟨fresh, ?_⟩
        rw [index?_cons_of_ne (Field.column_injective.ne differ)]
        exact found
      next fresh =>
        obtain first | mem := List.mem_cons.mp mem
        · cases first
          refine ⟨fresh, ?_⟩
          rw [Sheet.index?, List.findIdx?_cons, if_pos (beq_self_eq_true _)]
          rfl
        · obtain ⟨fresh, found⟩ := ih mem
          obtain ⟨differ, fresh⟩ := List.ne_and_not_mem_of_not_mem_cons fresh
          refine ⟨fresh, ?_⟩
          rw [index?_cons_of_ne (Field.column_injective.ne (Ne.symm differ))]
          exact found

theorem map_snd_columnsFrom (seen : List Field) (start : Nat) (names : List String) :
    (columnsFrom seen start names).map Prod.snd =
      (distinct (names.filterMap Field.ofColumn?)).filter (· ∉ seen) := by
  induction names generalizing seen start with
  | nil => rfl
  | cons name names ih =>
    rw [columnsFrom]
    cases known : Field.ofColumn? name with
    | none =>
      rw [List.filterMap_cons_none known]
      exact ih seen (start + 1)
    | some own =>
      rw [List.filterMap_cons_some known, distinct]
      dsimp only
      split
      next old =>
        rw [ih, List.filter_cons_of_neg (by simpa using old), List.filter_filter]
        apply List.filter_congr
        intro other _
        by_cases same : other = own <;> simp [same, old]
      next fresh =>
        rw [List.map_cons, ih, List.filter_cons_of_pos (by simpa using fresh), List.filter_filter]
        congr 1
        apply List.filter_congr
        intro other _
        simp [Bool.and_comm]

theorem map_snd_columns (header : List String) : (columns header).map Prod.snd = Sheet.fields header := by
  rw [columns, map_snd_columnsFrom, Sheet.fields]
  simp

theorem index?_of_mem_columns (mem : (index, field) ∈ columns header) : Sheet.index? header field = some index := by
  simpa using (index?_of_mem_columnsFrom mem).2

theorem index?_eq_none (absent : field.column ∉ header) : Sheet.index? header field = none := by
  rw [Sheet.index?, List.findIdx?_eq_none_iff]
  intro name mem
  exact beq_eq_false_iff_ne.mpr fun same => absent (same ▸ mem)

theorem columnOf?_columns (header : List String) (field : Field) :
    columnOf? (columns header) field = Sheet.index? header field := by
  rw [columnOf?]
  cases found : (columns header).find? fun column => column.2 == field with
  | none =>
    have absent : field.column ∉ header := by
      rw [← mem_fields, ← map_snd_columns, List.mem_map]
      rintro ⟨column, mem, same⟩
      exact List.find?_eq_none.mp found column mem (beq_iff_eq.mpr same)
    exact (index?_eq_none absent).symm
  | some column =>
    have same : column.2 = field := by simpa using List.find?_some found
    subst same
    exact (index?_of_mem_columns (List.mem_of_find?_eq_some found)).symm

theorem isNone_columnOf?_columns (header : List String) (field : Field) :
    (columnOf? (columns header) field).isNone = decide (field.column ∉ header) := by
  rw [columnOf?_columns]
  by_cases present : field.column ∈ header
  · simp [Sheet.index?, present]
  · simp [index?_eq_none present, present]

theorem cellOf_eq_none (absent : field ∉ Sheet.fields header) : Sheet.cellOf header cells field = none := by
  rw [Sheet.cellOf, index?_eq_none (mt mem_fields.mpr absent)]
  rfl

theorem cellOf_map {γ : Type} (name text : γ → String) (items : List γ) (field : Field) :
    Sheet.cellOf (items.map name) (items.map text) field =
      ((items.find? fun item => name item == field.column).map text).filter (· ≠ "") := by
  rw [Sheet.cellOf, Sheet.index?]
  congr 1
  induction items with
  | nil => rfl
  | cons item items ih =>
    rw [List.map_cons, List.map_cons, List.findIdx?_cons, List.find?_cons]
    cases name item == field.column with
    | true => rfl
    | false => exact (Option.bind_map ..).trans ih

theorem mem_of_cellOf {text : String} (given : Sheet.cellOf header cells field = some text) :
    text ∈ cells ∧ text ≠ "" := by
  obtain ⟨found, given⟩ := Option.filter_eq_some_iff.mp given
  obtain ⟨index, -, at_⟩ := Option.bind_eq_some_iff.mp found
  exact ⟨List.mem_of_getElem? at_, of_decide_eq_true given⟩

end Columns

section Rows

theorem readField_settles {read : Field → Option String} {cell : String} (line : Nat) (r : Record Float)
    (given : read field = some cell) :
    Settles (· = r.fill (Field.only [field] read)) (field.fault? line cell) (readField line r cell field) := by
  cases field with
  | queueType => refine .ok (Record.fill_eq ?_ ?_ ?_ ?_ ?_).symm <;> simp [Field.only]
  | testId =>
    refine .ok (Record.fill_eq ?_ ?_ ?_ ?_ ?_).symm <;> simp [Field.only, given, Record.count, Record.metric]
  | count sweep =>
    rw [readField, Field.fault?]
    cases reads : Number.count? cell with
    | none => exact .error _
    | some v =>
      refine .ok (Record.fill_eq ?_ ?_ (fun other => ?_) ?_ ?_).symm
      · rfl
      · simp [Field.only, Record.setCount]
      · rw [Record.count, Record.setCount, PerSweep.get_set]
        by_cases same : other = sweep <;> simp [Field.only, same, given, reads, Record.count]
      · simp [Field.only, Record.setCount, Record.metric]
      · simp [Record.setCount]
  | metric m =>
    rw [readField, Field.fault?]
    cases reads : Number.number? cell with
    | none => exact .error _
    | some v =>
      refine .ok (Record.fill_eq ?_ ?_ ?_ (fun other => ?_) ?_).symm
      · rfl
      · simp [Field.only, Record.setMetric]
      · simp [Field.only, Record.setMetric, Record.count]
      · rw [Record.metric, Record.setMetric, PerMetric.get_set]
        by_cases same : other = m <;> simp [Field.only, same, given, reads, Record.metric]
      · simp [Record.setMetric]

theorem readCells_cons (line : Nat) (cells : List String) (r : Record Float) (index : Nat) (field : Field)
    (rest : List (Nat × Field)) :
    readCells line cells r ((index, field) :: rest) =
      match cells[index]?.filter (· ≠ "") with
      | none => readCells line cells r rest
      | some cell => readField line r cell field >>= fun r => readCells line cells r rest := by
  rw [readCells]
  cases found : cells[index]? with
  | none => rfl
  | some cell =>
    by_cases empty : cell = ""
    · subst empty
      rfl
    · rw [Option.filter_some, if_pos (by simpa using empty)]
      dsimp only
      rw [if_neg empty]
      cases readField line r cell field <;> rfl

/-- The cells of the columns are read from left to right, until one cannot be read. -/
theorem readCells_settles (line : Nat) (cells : List String) {read : Field → Option String}
    {cols : List (Nat × Field)} (own : ∀ column ∈ cols, cells[column.1]?.filter (· ≠ "") = read column.2)
    (r : Record Float) :
    Settles (· = r.fill (Field.only (cols.map Prod.snd) read))
      ((cols.map Prod.snd).findSome? fun field => (read field).bind (field.fault? line))
      (readCells line cells r cols) := by
  -- The record so far is the first one with some fields filled, so the induction is about any record.
  induction cols generalizing r with
  | nil => exact .ok (Record.fill_none (Field.only_nil read)).symm
  | cons column rest ih =>
    obtain ⟨index, field⟩ := column
    obtain ⟨here, own⟩ := List.forall_mem_cons.mp own
    rw [readCells_cons, here, List.map_cons, findSome?_cons_eq_or]
    dsimp only
    cases given : read field with
    | none =>
      rw [Field.only_cons_of_eq_none given]
      exact ih own r
    | some cell =>
      refine (readField_settles line r given).bind ?_
      rintro next rfl
      refine (ih own _).mono fun last all => ?_
      rw [all, Record.fill_fill]
      rfl

theorem readRecord_settles (header : List String) (line : Nat) (cells : List String) :
    Settles (· = Record.ofCells (Sheet.cellOf header cells)) (Sheet.cellFault? header line cells)
      (readRecord (columns header) line cells) := by
  have queue : Sheet.cellOf header cells .queueType =
      ((columnOf? (columns header) .queueType).bind (cells[·]?)).filter (· ≠ "") := by
    rw [columnOf?_columns]
    rfl
  rw [readRecord, Sheet.cellFault?]
  cases found : (columnOf? (columns header) .queueType).bind (cells[·]?) with
  | none =>
    rw [queue, found]
    exact .error _
  | some name =>
    rw [found] at queue
    by_cases empty : name = ""
    · subst empty
      rw [queue]
      exact .error _
    · have named : Sheet.cellOf header cells .queueType = some name := by
        rw [queue, Option.filter_some, if_pos (by simpa using empty)]
      have own : ∀ column ∈ columns header,
          cells[column.1]?.filter (· ≠ "") = Sheet.cellOf header cells column.2 := by
        intro column mem
        rw [Sheet.cellOf, index?_of_mem_columns mem]
        rfl
      have all := readCells_settles line cells own { queue := name }
      rw [map_snd_columns, Field.only_of_eq_none fun _ => cellOf_eq_none, Record.fill_fresh named] at all
      rw [named, if_neg (Option.some_ne_none name)]
      dsimp only
      rw [if_neg empty]
      exact all

theorem readBody_eq_mapM (cols : List (Nat × Field)) (body : List (Except RowFault (Nat × List String))) :
    readBody cols body =
      body.mapM fun row => row >>= fun read => (readRecord cols read.1 read.2).mapError .table := by
  induction body with
  | nil => rfl
  | cons row body ih =>
    rw [List.mapM_cons, ← ih]
    cases row with
    | error fault => rfl
    | ok read =>
      rw [readBody]
      change _ = (readRecord cols read.1 read.2).mapError .table >>= fun r =>
        readBody cols body >>= fun rest => .ok (r :: rest)
      cases readRecord cols read.1 read.2 with
      | error fault => rfl
      | ok r => cases readBody cols body <;> rfl

theorem readBody_settles (header : List String) (body : List (Except RowFault (Nat × List String))) :
    Settles (List.Forall₂ (Sheet.Gives header) body) (body.findSome? (Sheet.rowFault? header))
      (readBody (columns header) body) := by
  rw [readBody_eq_mapM]
  refine .mapM fun row _ => ?_
  cases row with
  | error fault => exact .error fault
  | ok read =>
    exact ((readRecord_settles header read.1 read.2).mapError _).mono fun r same => ⟨read.1, read.2, rfl, same⟩

theorem ofSheet_settles (path : Bytes) (required : List Field) (sheet : Sheet) :
    Settles (List.Forall₂ (Sheet.Gives sheet.header) sheet.body) (sheet.fault? path required)
      (ofSheet path required sheet) := by
  rw [ofSheet, Sheet.fault?]
  split
  · exact .error _
  · simp only [isNone_columnOf?_columns]
    cases (Field.queueType :: required).find? fun field => decide (field.column ∉ sheet.header) with
    | some field => exact .error _
    | none => exact (readBody_settles sheet.header sheet.body).mapError _

end Rows

section Acceptance

theorem rowFault?_eq_none_iff {row : Except RowFault (Nat × List String)} :
    Sheet.rowFault? header row = none ↔
      ∃ line cells, row = .ok (line, cells) ∧ Field.Readable (Sheet.cellOf header cells) := by
  cases row with
  | error fault => simp [Sheet.rowFault?]
  | ok read =>
    obtain ⟨line, cells⟩ := read
    rw [Sheet.rowFault?, Option.map_eq_none_iff, Sheet.cellFault?]
    constructor
    · intro clean
      split at clean
      · cases clean
      next queue =>
        refine ⟨line, cells, rfl, queue, fun field cell given => ?_⟩
        have mem : field ∈ Sheet.fields header := by
          by_contra absent
          rw [cellOf_eq_none absent] at given
          cases given
        have own := List.findSome?_eq_none_iff.mp clean field mem
        rw [given] at own
        exact Field.fault?_eq_none_iff.mp own
    · rintro ⟨_, _, ⟨⟩, readable⟩
      rw [if_neg readable.queue, List.findSome?_eq_none_iff]
      intro field _
      cases given : Sheet.cellOf header cells field with
      | none => rfl
      | some cell => exact Field.fault?_eq_none_iff.mpr (readable.cells field cell given)

theorem titled_iff : header.all Text.isBlankText = false ↔ ∃ name ∈ header, Text.isBlankText name = false := by
  simp

theorem fault?_eq_none_iff {path : Bytes} {required : List Field} {sheet : Sheet} :
    sheet.fault? path required = none ↔ sheet.Accepted required := by
  rw [Sheet.fault?]
  constructor
  · intro clean
    split at clean
    · cases clean
    next titled =>
      obtain ⟨present, rows⟩ := Option.or_eq_none_iff.mp clean
      refine ⟨titled_iff.mp (eq_false_of_ne_true titled), fun field mem => ?_, fun row mem => ?_⟩
      · simpa using List.find?_eq_none.mp (Option.map_eq_none_iff.mp present) field mem
      · exact rowFault?_eq_none_iff.mp (List.findSome?_eq_none_iff.mp (Option.map_eq_none_iff.mp rows) row mem)
  · rintro ⟨titled, present, rows⟩
    rw [if_neg (ne_true_of_eq_false (titled_iff.mpr titled)), Option.or_eq_none_iff, Option.map_eq_none_iff,
      Option.map_eq_none_iff]
    refine ⟨List.find?_eq_none.mpr fun field mem => ?_, List.findSome?_eq_none_iff.mpr fun row mem => ?_⟩
    · simpa using present field mem
    · exact rowFault?_eq_none_iff.mpr (rows row mem)

theorem rowFault?_ne_ragged (read : Nat × List String) {line byte found width : Nat} :
    Sheet.rowFault? header (.ok read) ≠ some (.table (.ragged index line byte found width)) := by
  intro ragged
  obtain ⟨fault, ragged, same⟩ := Option.map_eq_some_iff.mp ragged
  cases same
  rw [Sheet.cellFault?] at ragged
  split at ragged
  · cases ragged
  · obtain ⟨field, -, ragged⟩ := List.exists_of_findSome?_eq_some ragged
    obtain ⟨cell, -, ragged⟩ := Option.bind_eq_some_iff.mp ragged
    cases field <;> simp [Field.fault?] at ragged

theorem of_fault?_eq_some {path : Bytes} {required : List Field} {sheet : Sheet} {failure : Failure}
    (failed : sheet.fault? path required = some failure) :
    (∃ fault, failure = .malformed path fault) ∨
      (∃ field ∈ Field.queueType :: required, failure = .missingColumn path field) ∨
      ∃ cause, failure = .io path cause ∧ .error (.io cause) ∈ sheet.body := by
  rw [Sheet.fault?] at failed
  split at failed
  · cases failed
    exact .inl ⟨.noHeader, rfl⟩
  · obtain column | ⟨-, row⟩ := Option.or_eq_some_iff.mp failed
    · obtain ⟨field, found, rfl⟩ := Option.map_eq_some_iff.mp column
      exact .inr (.inl ⟨field, List.mem_of_find?_eq_some found, rfl⟩)
    · obtain ⟨fault, found, rfl⟩ := Option.map_eq_some_iff.mp row
      cases fault with
      | table fault => exact .inl ⟨fault, rfl⟩
      | io cause =>
        obtain ⟨row, mem, own⟩ := List.exists_of_findSome?_eq_some found
        cases row with
        | error fault =>
          cases own
          exact .inr (.inr ⟨cause, rfl, mem⟩)
        | ok read =>
          obtain ⟨_, -, same⟩ := Option.map_eq_some_iff.mp own
          cases same

end Acceptance

section Influence

theorem cellOf_eq_of_same {others : List String} (same : Sheet.SameCells header cells others) :
    Sheet.cellOf header others = Sheet.cellOf header cells := by
  funext field
  rw [Sheet.cellOf, Sheet.cellOf]
  cases found : Sheet.index? header field with
  | none => rfl
  | some index => rw [Option.bind_some, Option.bind_some, same field index found]

theorem cellFault?_of_same {others : List String} (same : Sheet.SameCells header cells others) :
    Sheet.cellFault? header line others = Sheet.cellFault? header line cells := by
  rw [Sheet.cellFault?, Sheet.cellFault?, cellOf_eq_of_same same]

theorem readRecord_of_same {others : List String} (same : Sheet.SameCells header cells others) :
    readRecord (columns header) line others = readRecord (columns header) line cells := by
  have first := readRecord_settles header line cells
  have second := readRecord_settles header line others
  rw [cellFault?_of_same same, cellOf_eq_of_same same] at second
  exact second.unique first

theorem readBody_of_sameRow {body others : List (Except RowFault (Nat × List String))}
    (same : List.Forall₂ (Sheet.SameRow header) body others) :
    readBody (columns header) others = readBody (columns header) body := by
  induction same with
  | nil => rfl
  | cons first _ ih =>
    cases first with
    | error fault => rfl
    | ok same => rw [readBody, readBody, readRecord_of_same same, ih]

end Influence

theorem ofReader_settles (path : Bytes) (required : List Field) (read : Except RowFault Sheet) :
    Settles (fun records => ∃ sheet, read = .ok sheet ∧ List.Forall₂ (Sheet.Gives sheet.header) sheet.body records)
      (Sheet.readerFault? path required read) (ofReader path required read) := by
  cases read with
  | error fault => exact .error _
  | ok sheet => exact (ofSheet_settles path required sheet).mono fun records gives => ⟨sheet, rfl, gives⟩

/-- What a reader gives, a sheet or the reason why there is none, settles what is read of it. -/
theorem ofReader_reads (path : Bytes) (required : List Field) (read : Except RowFault Sheet) :
    ((∃ records, ofReader path required read = .ok records) ↔ ∃ sheet, read = .ok sheet ∧ sheet.Accepted required) ∧
      (∀ records, ofReader path required read = .ok records →
        ∃ sheet, read = .ok sheet ∧ List.Forall₂ (Sheet.Gives sheet.header) sheet.body records) ∧
      (∀ failure, ofReader path required read = .error failure ↔
        Sheet.readerFault? path required read = some failure) ∧
      (∀ failure, ofReader path required read = .error failure →
        (∃ fault, failure = .malformed path fault) ∨
          (∃ field ∈ Field.queueType :: required, failure = .missingColumn path field) ∨
          ∃ cause, failure = .io path cause ∧
            (read = .error (.io cause) ∨ ∃ sheet, read = .ok sheet ∧ .error (.io cause) ∈ sheet.body)) ∧
      ∀ sheet body, read = .ok sheet → List.Forall₂ (Sheet.SameRow sheet.header) sheet.body body →
        ofReader path required (.ok ⟨sheet.header, body⟩) = ofReader path required read := by
  have settles := ofReader_settles path required read
  refine ⟨?_, fun records done => (settles.of_eq_ok done).2, fun failure => settles.eq_error_iff, ?_, ?_⟩
  · constructor
    · rintro ⟨records, done⟩
      obtain ⟨sound, sheet, rfl, -⟩ := settles.of_eq_ok done
      exact ⟨sheet, rfl, fault?_eq_none_iff.mp sound⟩
    · rintro ⟨sheet, rfl, accepted⟩
      obtain ⟨records, done, -⟩ := settles.yields (fault?_eq_none_iff.mpr accepted)
      exact ⟨records, done⟩
  · intro failure failed
    cases read with
    | error fault =>
      cases failed
      cases fault with
      | io cause => exact .inr (.inr ⟨cause, rfl, .inl rfl⟩)
      | table fault => exact .inl ⟨fault, rfl⟩
    | ok sheet =>
      obtain malformed | missing | ⟨cause, same, mem⟩ := of_fault?_eq_some (settles.eq_error_iff.mp failed)
      · exact .inl malformed
      · exact .inr (.inl missing)
      · exact .inr (.inr ⟨cause, same, .inr ⟨sheet, rfl, mem⟩⟩)
  · rintro sheet body rfl same
    rw [ofReader, ofReader, ofSheet, ofSheet]
    dsimp only
    rw [readBody_of_sameRow same]

/-- Where the input breaks off, at its start or in a row, the failure is neither about the table nor about a column. -/
theorem ofReader_breaksOff :
    ofInput "runs" [] (.error .isDirectory) = .error (.io "runs" .isDirectory) ∧
      ofReader "a.csv" [] (.ok ⟨["Queuetype"], [.ok (2, ["lcrq"]), .error (.io (.other "Input/output error"))]⟩) =
        .error (.io "a.csv" (.other "Input/output error")) ∧
      ∀ path cause, (∀ fault, Failure.io path cause ≠ .malformed path fault) ∧
        ∀ field, Failure.io path cause ≠ .missingColumn path field := by
  refine ⟨rfl, ?_, fun _ _ => ⟨nofun, nofun⟩⟩
  rfl

/-- The first of two columns with one header counts, and a header that is not known does not. -/
example : ((ofSheet "a.csv" [.count .threads]
    ⟨["Note", "Queuetype", "Thread Count", "Thread Count"], [.ok (2, ["x", "lcrq", "4", "eight"])]⟩).map
      fun records => records.map fun r => (r.queue, r.count .threads)) = .ok [("lcrq", some 4)] := by
  decide +kernel

end ResultFile

end SweepPlot
