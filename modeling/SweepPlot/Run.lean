import SweepPlot.Drawing.Svg
import SweepPlot.Figure.Render
import SweepPlot.Figure.Summary
import SweepPlot.Merge
import SweepPlot.Request.Validation
import SweepPlot.SummaryTable
set_option autoImplicit false

/-!
One request from results to drawing. All that can fail without a trace comes first: validation, loading,
the check that named queue types occur, the figure and its drawing. Then the summary table grows, then the
drawing replaces the output file, and only then is anything shown. What a tree of files does not show of the
system, such as permissions and room on the disk, is a parameter of the run. Log lines are left out, and
what is shown is taken to go through.
-/

namespace SweepPlot

structure RunReport where
  loaded : Nat
  failed : Nat
  records : Nat
  groups : Nat
  output : String
  figure : Figure

structure RunResult where
  files : FileSystem
  shown : String
  answer : Except Failure RunReport

/-- How figures are drawn where a run takes place, and what fails there when it writes. -/
structure Site where
  draw : Figure → Except String String := fun figure => .ok (Drawing.svg figure)
  table : Option SummaryTable.Fault := none
  output : FileSystem.ReplaceFaults := {}

namespace Request

def requiredField (r : Request) : Field :=
  match r.layout with
  | .peakMemory => .metric .memory
  | .bfs => .metric .milliseconds
  | _ => .count r.sweep

def merger (r : Request) : Merger :=
  ⟨r.choice, r.errorMode, [r.requiredField]⟩

/-- Reports of the directories among the roots, as far as they hold a chosen file. -/
def mergeDirectories (r : Request) (fs : FileSystem) (report : Option MergeReport) (root : Bytes) :
    Except Failure (Option MergeReport) :=
  match r.merger.mergeDirectory fs root r.recursive with
  | .error failure => .error failure
  | .ok (.empty _) => .ok report
  | .ok (.loaded more) => .ok (some ((report.getD {}).absorb more))

def rootPaths (r : Request) : List Bytes :=
  r.roots.map Bytes.ofText

/-- Files among the roots are loaded before the directories among them. -/
def loadFlat (r : Request) (fs : FileSystem) : Except Failure MergeReport := do
  let files := r.rootPaths.filter fun root => !fs.isDir root
  let directories := r.rootPaths.filter fs.isDir
  let report ← match ← r.merger.mergeFiles fs files with
    | .loaded report => pure (some report)
    | .empty _ => pure none
  match ← directories.foldlM (r.mergeDirectories fs) report with
  | some report => return report
  | none => throw (.noData .nothingFound)

def loadMode (r : Request) (fs : FileSystem) : Except Failure MergeReport :=
  match r.mode with
  | .flat => r.loadFlat fs
  | .subfolder => (r.merger.mergeSubfolders fs (r.rootPaths.headD [])).bind MergeOutcome.report
  | .variant => (r.merger.mergeVariants fs r.rootPaths r.variants).bind MergeOutcome.report

def loadResults (r : Request) (fs : FileSystem) : Except Failure MergeReport := do
  let report ← r.loadMode fs
  if report.records.isEmpty then throw (.noData (.noRecords report.errors.length))
  return report

def absentFrom (d : Dataset) (queues : List String) : List String :=
  queues.filter fun q => !d.containsQueue q

def checkList (d : Dataset) (name : String) (queues : List String) : Except Failure Unit :=
  let absent := absentFrom d queues
  if absent.isEmpty then .ok () else .error (.misconfigured (.absentQueues name absent))

def checkQueues (r : Request) (d : Dataset) : Except Failure Unit := do
  checkList d "allow" r.filter.allow
  checkList d "highlight" r.filter.highlight
  checkList d "right" r.right

def aggregation (r : Request) : Aggregation :=
  match r.layout with
  | .peakMemory => .peakMemory
  | .bfs => .bfs (match r.mode with
    | .flat => none
    | .subfolder => some .subfolder
    | .variant => some .variant)
  | _ => .forChart r.sweep r.perTrial

def figureLayout (r : Request) (d : Dataset) : Layout :=
  match r.layout with
  | .single => { Layout.single r.metric with title := some (r.metric.column ++ " vs " ++ r.sweep.axisLabel) }
  | .combined => .combined
  | .fourMetric => .fourMetric
  | .paired => .paired r.metric r.right
  | .sixPanel => .sixPanel r.metric r.variants r.right
  | .peakMemory => .peakMemory
  | .bfs => match r.mode with
    | .flat => .bfs [] .subfolder
    | .subfolder => .bfs d.subfolders .subfolder
    | .variant => .bfs r.variants .variant

/-- Styles of all queue types in the data, also of those that are filtered out, so that a filter moves no
style. -/
def registry (r : Request) (d : Dataset) : Registry :=
  (match r.layout with
    | .sixPanel => Registry.comparison
    | _ => Registry.empty).assign d.queueTypes

def view (r : Request) (d : Dataset) : View :=
  ⟨r.registry d, r.filter, r.sweep, r.ticks⟩

def figure (r : Request) (d : Dataset) : Except Failure (Figure × List (Group Float)) := do
  r.checkQueues d
  let groups := r.aggregation.groups d
  let figure ← (r.view d).render (r.figureLayout d) groups
  if figure.isEmpty then throw (.noData .nothingToPlot)
  return (figure, groups)

def draw (r : Request) (site : Site) (d : Dataset) : Except Failure (Figure × List (Group Float) × String) := do
  let (figure, groups) ← r.figure d
  let drawing ← (site.draw figure).mapError .render
  return (figure, groups, drawing)

def record (r : Request) (site : Site) (fs : FileSystem) (groups : List (Group Float)) :
    FileSystem × Except Failure Unit :=
  match r.summary with
  | none => (fs, .ok ())
  | some path => SummaryTable.record fs site.table path r.aggregation r.sweep groups

def write (r : Request) (site : Site) (fs : FileSystem) (merged : MergeReport) (figure : Figure) (groups : Nat)
    (drawing : String) : RunResult :=
  match fs.replaceFile site.output r.outputPath (Bytes.ofText drawing) with
  | (fs, .error failure) => ⟨fs, "", .error failure⟩
  | (fs, .ok ()) =>
    ⟨fs, if r.showText then figure.summary else "",
      .ok ⟨merged.loaded, merged.errors.length, merged.records.length, groups, r.outputPath, figure⟩⟩

def execute (r : Request) (site : Site) (fs : FileSystem) : RunResult :=
  match r.loadResults fs with
  | .error failure => ⟨fs, "", .error failure⟩
  | .ok merged =>
    match r.draw site merged.records with
    | .error failure => ⟨fs, "", .error failure⟩
    | .ok (figure, groups, drawing) =>
      match r.record site fs groups with
      | (fs, .error failure) => ⟨fs, "", .error failure⟩
      | (fs, .ok ()) => r.write site fs merged figure groups.length drawing

def accept (r : Request) : Except Failure Unit :=
  (r.validate).mapError fun fault => .misconfigured (.request fault)

def runAt (r : Request) (site : Site) (fs : FileSystem) : RunResult :=
  match r.accept with
  | .error failure => ⟨fs, "", .error failure⟩
  | .ok () => r.execute site fs

def run (r : Request) (fs : FileSystem) : RunResult :=
  r.runAt {} fs

end Request

end SweepPlot
