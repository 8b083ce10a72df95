import SweepPlot.FileChoice
import SweepPlot.Files.Listing
import SweepPlot.ResultFile
set_option autoImplicit false

/-!
Many result files into one dataset. Files are loaded in the order in which they are listed; a file that
does not load, or a directory that cannot be listed, is noted in the report or ends the merge, as the error
mode says. Records carry the file they came from, and in the other modes the name of the subdirectory of
the root and the label of the root.
-/

namespace SweepPlot

structure FileFailure where
  path : Bytes
  failure : Failure
  deriving DecidableEq, Repr

structure MergeReport where
  records : Dataset := []
  errors : List FileFailure := []
  loaded : Nat := 0
  emptySubfolders : List Bytes := []

inductive MergeOutcome where
  | loaded (report : MergeReport)
  | empty (reason : EmptyReason)

structure Merger where
  choice : FileChoice := {}
  errorMode : ErrorMode := .collectErrors
  required : List Field := []

namespace ResultFile

def load (fs : FileSystem) (path : Bytes) (required : List Field) : Except Failure Dataset :=
  match fs.openFile path with
  | .error cause => .error (.io path cause)
  | .ok read => (ofInput path required read).map (Dataset.stampSource path)

end ResultFile

namespace MergeReport

def absorb (report other : MergeReport) : MergeReport where
  records := report.records ++ other.records
  errors := report.errors ++ other.errors
  loaded := report.loaded + other.loaded
  emptySubfolders := report.emptySubfolders ++ other.emptySubfolders

end MergeReport

namespace MergeOutcome

def report : MergeOutcome → Except Failure MergeReport
  | loaded report => .ok report
  | empty reason => .error (.noData (.empty reason))

end MergeOutcome

namespace Merger

def note (m : Merger) (report : MergeReport) (path : Bytes) (failure : Failure) :
    Except Failure MergeReport :=
  match m.errorMode with
  | .failFast => .error failure
  | .collectErrors => .ok { report with errors := report.errors ++ [⟨path, failure⟩] }

def stamped (subfolder : Option String) (d : Dataset) : Dataset :=
  match subfolder with
  | some name => d.stampSubfolder name
  | none => d

def loadFile (m : Merger) (fs : FileSystem) (subfolder : Option String) (report : MergeReport)
    (path : Bytes) : Except Failure MergeReport :=
  match ResultFile.load fs path m.required with
  | .error failure => m.note report path failure
  | .ok d =>
    .ok { report with records := report.records ++ stamped subfolder d, loaded := report.loaded + 1 }

def loadFiles (m : Merger) (fs : FileSystem) (subfolder : Option String) (report : MergeReport)
    (paths : List Bytes) : Except Failure MergeReport :=
  paths.foldlM (m.loadFile fs subfolder) report

def choose (m : Merger) (dir : Bytes) (findings : List Finding) : List Bytes :=
  (findings.filter fun found => found.fault.isNone).filterMap fun found =>
    let path := Path.joinAll dir found.steps
    if m.choice.accepts path then some path else none

def noteFault (m : Merger) (dir : Bytes) (report : MergeReport) (found : Finding) :
    Except Failure MergeReport :=
  match found.fault with
  | none => .ok report
  | some cause =>
    let path := Path.joinAll dir found.steps
    m.note report path (.io path cause)

def collect (m : Merger) (fs : FileSystem) (dir : Bytes) (deep : Bool) (report : MergeReport) :
    Except Failure (List Bytes × MergeReport) :=
  match fs.findings deep dir with
  | .error cause => (m.note report dir (.io dir cause)).map fun report => ([], report)
  | .ok findings =>
    (findings.foldlM (m.noteFault dir) report).map fun report => (m.choose dir findings, report)

def requireDir (fs : FileSystem) (root : Bytes) : Except Failure Unit :=
  match fs.lookup root with
  | .error cause => .error (.io root cause)
  | .ok node => if node.isDirectory then .ok () else .error (.io root .plainFile)

def mergeFiles (m : Merger) (fs : FileSystem) (paths : List Bytes) : Except Failure MergeOutcome :=
  if paths = [] then .ok (.empty .noFiles)
  else (m.loadFiles fs none {} paths).map .loaded

def mergeDirectory (m : Merger) (fs : FileSystem) (root : Bytes) (deep : Bool) :
    Except Failure MergeOutcome := do
  requireDir fs root
  let (files, report) ← m.collect fs root deep {}
  if files = [] ∧ report.errors = [] then return .empty .noFiles
  let report ← m.loadFiles fs none report files
  return .loaded report

def mergeSubfolder (m : Merger) (fs : FileSystem) (report : MergeReport) (sub : Subfolder) :
    Except Failure MergeReport := do
  let (files, report) ← m.collect fs sub.path true report
  if files = [] then return { report with emptySubfolders := report.emptySubfolders ++ [sub.path] }
  m.loadFiles fs (some sub.name) report files

def mergeSubfolders (m : Merger) (fs : FileSystem) (root : Bytes) : Except Failure MergeOutcome := do
  requireDir fs root
  let subfolders ← (fs.subfolders root).mapError (.io root)
  if subfolders = [] then return .empty (.noSubfolders root)
  let report ← subfolders.foldlM (m.mergeSubfolder fs) {}
  if report.loaded = 0 ∧ report.errors = [] then return .empty (.noUsableFiles root)
  return .loaded report

def outcomeOf (merged : Option MergeReport) (reason : Option EmptyReason) : MergeOutcome :=
  match merged with
  | some report => .loaded report
  | none => .empty (reason.getD .noFiles)

/-- Roots that turn out empty are skipped; the first of them gives the reason if all are. -/
def mergeLabelled (m : Merger) (fs : FileSystem) :
    List (Bytes × String) → Option MergeReport → Option EmptyReason → Except Failure MergeOutcome
  | [], merged, reason => .ok (outcomeOf merged reason)
  | (root, label) :: rest, merged, reason => do
    match ← m.mergeSubfolders fs root with
    | .loaded report =>
      let report := { report with records := report.records.stampVariant label }
      m.mergeLabelled fs rest (some ((merged.getD {}).absorb report)) reason
    | .empty why => m.mergeLabelled fs rest merged (reason.or (some why))

def mergeVariants (m : Merger) (fs : FileSystem) (roots : List Bytes) (labels : List String) :
    Except Failure MergeOutcome :=
  if roots.length ≠ labels.length then
    .error (.misconfigured (.labelCount roots.length labels.length))
  else
    match firstRepeat? labels with
    | some label => .error (.misconfigured (.repeatedLabel label))
    | none => m.mergeLabelled fs (roots.zip labels) none none

end Merger

end SweepPlot
