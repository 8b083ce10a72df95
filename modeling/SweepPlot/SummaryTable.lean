import SweepPlot.Aggregation
import SweepPlot.Failure
import SweepPlot.Files.Change
import SweepPlot.Number.Printed
import SweepPlot.Table.Written
set_option autoImplicit false

namespace SweepPlot.SummaryTable

def recordsColumn : String := "Records"

def header (a : Aggregation) (sweep : Sweep) : List String :=
  [Field.variantColumn, Field.subfolderColumn, Field.queueTypeColumn, Field.testIdColumn, sweep.column] ++
    a.metrics.map Metric.column ++ [recordsColumn]

def row (a : Aggregation) (sweep : Sweep) (g : Group Float) : List String :=
  [g.variant.getD "", g.subfolder.getD "", g.queue, g.testId.getD "",
    ((g.count sweep).map toString).getD ""] ++
    a.metrics.map (fun m => ((g.metric m).map Number.positional).getD "") ++ [toString g.records]

def rows (a : Aggregation) (sweep : Sweep) (groups : List (Group Float)) (isNew : Bool) : List (List String) :=
  (if isNew then [header a sweep] else []) ++ groups.map (row a sweep)

def bytes (table : List (List String)) : Bytes :=
  Table.writeRows (table.map fun cells => cells.map Bytes.ofText)

def append (fs : FileSystem) (path : Bytes) (a : Aggregation) (sweep : Sweep) (groups : List (Group Float)) :
    Except Failure FileSystem :=
  (fs.append path (bytes (rows a sweep groups (!fs.isThere path)))).mapError (.io path)

/-- What fails when rows are added to a table, for reasons that the tree does not show. Where the rows cannot be written
or flushed, some bytes may be there already. -/
inductive Fault where
  | opening (cause : IoCause)
  | writing (left : Bytes) (cause : IoCause)
  | flushing (left : Bytes) (cause : IoCause)

def tear (fs : FileSystem) (path left : Bytes) (failure : Failure) : FileSystem × Except Failure Unit :=
  match fs.append path left with
  | .error cause => (fs, .error (.io path cause))
  | .ok torn => (torn, .error failure)

def record (fs : FileSystem) (fault : Option Fault) (path : Bytes) (a : Aggregation) (sweep : Sweep)
    (groups : List (Group Float)) : FileSystem × Except Failure Unit :=
  match fault with
  | none =>
    match append fs path a sweep groups with
    | .error failure => (fs, .error failure)
    | .ok grown => (grown, .ok ())
  | some (.opening cause) => (fs, .error (.io path cause))
  | some (.writing left cause) => tear fs path left (.render (path.shown ++ ": " ++ cause.message))
  | some (.flushing left cause) => tear fs path left (.io path cause)

end SweepPlot.SummaryTable
