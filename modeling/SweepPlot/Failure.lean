import SweepPlot.Bytes
import SweepPlot.Vocabulary
set_option autoImplicit false

namespace SweepPlot

inductive IoCause where
  | notFound
  | denied
  | deviceBusy
  | alreadyExists
  | notDirectory
  | isDirectory
  | invalidArgument
  | nameTooLong
  | linkLoop
  | nulInPath
  | plainFile
  | notText
  | other (message : String)
  deriving DecidableEq, Repr

/-- Why the content of a file is not a table of results. Lines count from one, records from the header. -/
inductive TableFault where
  | noHeader
  | ragged (record line byte found expected : Nat)
  | notUtf8 (record line field byte valid : Nat)
  | emptyQueue (line : Nat)
  | notInteger (line : Nat) (cell : String) (sweep : Sweep)
  | notNumeric (line : Nat) (cell : String) (metric : Metric)
  deriving DecidableEq, Repr

inductive ChoiceFault where
  | emptyStart
  | separatorInStart (start : String)
  deriving DecidableEq, Repr

inductive RequestFault where
  | noRoots
  | subfolderRoots (count : Nat)
  | labelCount (roots labels : Nat)
  | blankLabel
  | repeatedLabel (label : String)
  | rightMissing (layout : LayoutKind)
  | sixPanelMode
  | noTicks
  | ticksNotIncreasing (ticks : List Int)
  | choice (fault : ChoiceFault)
  | outputNotFile (path : String)
  deriving DecidableEq, Repr

inductive LayoutFault where
  | emptyGrid (rows cols : Nat)
  | noPanels
  | tooSmall (width height : Nat)
  | outside (index row col rows cols : Nat)
  | sharedCell (row col : Nat)
  deriving DecidableEq, Repr

inductive EmptyReason where
  | noSubfolders (root : Bytes)
  | noUsableFiles (root : Bytes)
  | noFiles
  deriving DecidableEq, Repr

inductive Misconfiguration where
  | request (fault : RequestFault)
  | layout (fault : LayoutFault)
  | labelCount (roots labels : Nat)
  | repeatedLabel (label : String)
  | absentQueues (list : String) (queues : List String)
  | unstyled (queue : String)
  deriving DecidableEq, Repr

inductive NoDataCause where
  | empty (reason : EmptyReason)
  | nothingFound
  | noRecords (failed : Nat)
  | nothingToPlot
  deriving DecidableEq, Repr

inductive Failure where
  | io (path : Bytes) (cause : IoCause)
  | malformed (path : Bytes) (fault : TableFault)
  | missingColumn (path : Bytes) (field : Field)
  | misconfigured (cause : Misconfiguration)
  | noData (cause : NoDataCause)
  | render (message : String)
  deriving DecidableEq, Repr

def IoCause.message : IoCause → String
  | notFound => "No such file or directory (os error 2)"
  | denied => "Permission denied (os error 13)"
  | deviceBusy => "Device or resource busy (os error 16)"
  | alreadyExists => "File exists (os error 17)"
  | notDirectory => "Not a directory (os error 20)"
  | isDirectory => "Is a directory (os error 21)"
  | invalidArgument => "Invalid argument (os error 22)"
  | nameTooLong => "File name too long (os error 36)"
  | linkLoop => "Too many levels of symbolic links (os error 40)"
  | nulInPath => "file name contained an unexpected NUL byte"
  | plainFile => "not a directory"
  | notText => "stream did not contain valid UTF-8"
  | other message => message

def TableFault.message : TableFault → String
  | noHeader => "file is empty or has no header row"
  | ragged record line byte found expected =>
    s!"CSV error: record {record} (line: {line}, byte: {byte}): found record with {found} fields, " ++
      s!"but the previous record has {expected} fields"
  | notUtf8 record line field byte valid =>
    s!"CSV parse error: record {record} (line {line}, field: {field}, byte: {byte}): " ++
      s!"invalid utf-8: invalid UTF-8 in field {field} near byte index {valid}"
  | emptyQueue line => s!"line {line}: empty {Field.queueTypeColumn}"
  | notInteger line cell sweep =>
    s!"line {line}: '{cell}' in column '{sweep.column}' is not an integer"
  | notNumeric line cell metric =>
    s!"line {line}: '{cell}' in column '{metric.column}' is not numeric"

def ChoiceFault.message : ChoiceFault → String
  | emptyStart => "name_prefix must not be empty when set"
  | separatorInStart start => s!"name_prefix '{start}' must not contain a path separator"

def listText (ticks : List Int) : String :=
  "[" ++ String.intercalate ", " (ticks.map toString) ++ "]"

def RequestFault.message : RequestFault → String
  | noRoots => "at least one input root is required"
  | subfolderRoots count => s!"subfolder mode takes exactly one root, got {count}"
  | labelCount roots labels =>
    s!"variant mode needs one label per root: {roots} roots, {labels} labels"
  | blankLabel => "variant labels must not be empty"
  | repeatedLabel label => s!"variant label '{label}' is given for more than one root"
  | rightMissing layout => s!"{layout.token} layout requires at least one right-panel queue type"
  | sixPanelMode => "six-panel layout requires variant mode"
  | noTicks => "x_ticks must not be empty"
  | ticksNotIncreasing ticks => "x_ticks must be strictly increasing: " ++ listText ticks
  | choice fault => "selection: " ++ fault.message
  | outputNotFile path => s!"output '{path}' is not a file path"

def LayoutFault.message : LayoutFault → String
  | emptyGrid rows cols => s!"grid must be non-empty, got {rows}x{cols}"
  | noPanels => "layout has no panels"
  | tooSmall width height => s!"size ({width}, {height}) is too small"
  | outside index row col rows cols =>
    s!"panel {index} at ({row}, {col}) is outside the {rows}x{cols} grid"
  | sharedCell row col => s!"two panels share cell ({row}, {col})"

def EmptyReason.message : EmptyReason → String
  | noSubfolders root => "no subfolders found in: " ++ root.shown
  | noUsableFiles root => "no usable files found under: " ++ root.shown
  | noFiles => "no input files"

def Misconfiguration.message : Misconfiguration → String
  | request fault => fault.message
  | layout fault => fault.message
  | labelCount roots labels => s!"{roots} variant roots but {labels} variant labels"
  | repeatedLabel label => s!"variant label '{label}' is given for more than one root"
  | absentQueues list queues =>
    s!"{list} list names queue types not present in the data: " ++ String.intercalate ", " queues
  | unstyled queue => s!"queue type '{queue}' has no style assignment"

def NoDataCause.message : NoDataCause → String
  | empty reason => reason.message
  | nothingFound => "no input files found"
  | noRecords failed => s!"no records loaded ({failed} files failed)"
  | nothingToPlot => "nothing left to plot after filtering"

namespace Failure

def message : Failure → String
  | io path cause => s!"I/O error on {path.shown}: {cause.message}"
  | malformed path fault => s!"parse error in {path.shown}: {fault.message}"
  | missingColumn path field => s!"missing column '{field.column}' in {path.shown}"
  | misconfigured cause => "configuration error: " ++ cause.message
  | noData cause => "no valid data: " ++ cause.message
  | render message => "render error: " ++ message

def isLocal : Failure → Bool
  | io .. | malformed .. | missingColumn .. => true
  | misconfigured _ | noData _ | render _ => false

end Failure

end SweepPlot
