import SweepPlot.Failure
import SweepPlot.Record
import SweepPlot.Number.Reading
import SweepPlot.Table.Utf8
set_option autoImplicit false

/-!
From the bytes of one result file to its records. The bytes become a sheet, a header and rows of trimmed
cells; the first column with a known header gives that field, an empty cell leaves it absent, and the first
check that fails is the answer: header, queue type column, required columns as listed, then row by row.
-/

namespace SweepPlot

/-- Why a header or a row cannot be had: its input cannot be read on, or it is not part of a table. -/
inductive RowFault where
  | io (cause : IoCause)
  | table (fault : TableFault)
  deriving DecidableEq, Repr

def RowFault.failure (path : Bytes) : RowFault → Failure
  | io cause => .io path cause
  | table fault => .malformed path fault

structure Sheet where
  header : List String
  body : List (Except RowFault (Nat × List String))

namespace Sheet

/-- Blank bytes are cut off before the cells are read as text, other white space after it. -/
def readRow (width : Nat) (index : Nat) (row : Table.Row) : Except RowFault (Nat × List String) :=
  if row.cells.length ≠ width then
    .error (.table (.ragged index row.opened.line row.opened.byte row.cells.length width))
  else
    match Table.cellTexts (row.cells.map Bytes.trim) with
    | .error (field, valid) => .error (.table (.notUtf8 index row.opened.line field row.opened.byte valid))
    | .ok cells => .ok (row.opened.line, cells.map Text.trim)

def readRows (width : Nat) : Nat → List Table.Row → List (Except RowFault (Nat × List String))
  | _, [] => []
  | index, row :: rows => readRow width index row :: readRows width (index + 1) rows

def ofBytes (bytes : Bytes) : Except TableFault Sheet :=
  match Table.rows bytes with
  | [] => .ok ⟨[], []⟩
  | head :: rows =>
    match Table.cellTexts head.cells with
    | .error (field, valid) => .error (.notUtf8 0 head.opened.line field head.opened.byte valid)
    | .ok header => .ok ⟨header, readRows header.length 1 rows⟩

end Sheet

namespace ResultFile

/-- Columns with a known header by index; a repeated header counts once, where it stands first. -/
def columnsFrom (seen : List Field) (index : Nat) : List String → List (Nat × Field)
  | [] => []
  | name :: names =>
    match Field.ofColumn? name with
    | none => columnsFrom seen (index + 1) names
    | some field =>
      if field ∈ seen then columnsFrom seen (index + 1) names
      else (index, field) :: columnsFrom (field :: seen) (index + 1) names

def columns (header : List String) : List (Nat × Field) :=
  columnsFrom [] 0 header

def columnOf? (columns : List (Nat × Field)) (field : Field) : Option Nat :=
  (columns.find? fun column => column.2 == field).map (·.1)

def readField (line : Nat) (r : Record Float) (cell : String) : Field → Except TableFault (Record Float)
  | .queueType => .ok r
  | .testId => .ok { r with testId := some cell }
  | .count sweep =>
    match Number.count? cell with
    | some v => .ok (r.setCount sweep (some v))
    | none => .error (.notInteger line cell sweep)
  | .metric m =>
    match Number.number? cell with
    | some v => .ok (r.setMetric m (some v))
    | none => .error (.notNumeric line cell m)

def readCells (line : Nat) (cells : List String) :
    Record Float → List (Nat × Field) → Except TableFault (Record Float)
  | r, [] => .ok r
  | r, (index, field) :: rest =>
    match cells[index]? with
    | none => readCells line cells r rest
    | some cell =>
      if cell = "" then readCells line cells r rest
      else
        match readField line r cell field with
        | .error fault => .error fault
        | .ok r => readCells line cells r rest

def readRecord (columns : List (Nat × Field)) (line : Nat) (cells : List String) :
    Except TableFault (Record Float) :=
  match (columnOf? columns .queueType).bind (cells[·]?) with
  | none => .error (.emptyQueue line)
  | some queue =>
    if queue = "" then .error (.emptyQueue line)
    else readCells line cells { queue := queue } columns

def readBody (columns : List (Nat × Field)) :
    List (Except RowFault (Nat × List String)) → Except RowFault Dataset
  | [] => .ok []
  | .error fault :: _ => .error fault
  | .ok (line, cells) :: rest =>
    match readRecord columns line cells with
    | .error fault => .error (.table fault)
    | .ok r => (readBody columns rest).map (r :: ·)

def ofSheet (path : Bytes) (required : List Field) (sheet : Sheet) : Except Failure Dataset :=
  if sheet.header.all Text.isBlankText then .error (.malformed path .noHeader)
  else
    let columns := columns sheet.header
    match (Field.queueType :: required).find? fun field => (columnOf? columns field).isNone with
    | some field => .error (.missingColumn path field)
    | none => (readBody columns sheet.body).mapError (RowFault.failure path)

def ofReader (path : Bytes) (required : List Field) : Except RowFault Sheet → Except Failure Dataset
  | .error fault => .error (fault.failure path)
  | .ok sheet => ofSheet path required sheet

def ofBytes (path : Bytes) (required : List Field) (bytes : Bytes) : Except Failure Dataset :=
  ofReader path required ((Sheet.ofBytes bytes).mapError .table)

def ofInput (path : Bytes) (required : List Field) : Except IoCause Bytes → Except Failure Dataset
  | .error cause => ofReader path required (.error (.io cause))
  | .ok bytes => ofBytes path required bytes

end ResultFile

end SweepPlot
