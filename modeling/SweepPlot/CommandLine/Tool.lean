import SweepPlot.CommandLine.Flags
import SweepPlot.Request.File
import SweepPlot.Run
set_option autoImplicit false

namespace SweepPlot.CommandLine

structure Outcome where
  code : Nat
  out : String
  err : String
  files : FileSystem

def versionText : String := "plot-benchmarks 0.1.0\n"

def helpText : String :=
  "Aggregate queue benchmark CSV files and draw comparison charts\n\n" ++
  "Usage: plot-benchmarks [OPTIONS] [ROOTS]...\n\n" ++
  "Arguments:\n" ++
  "  [ROOTS]...  Input files or directories\n\n" ++
  "Options:\n" ++
  "      --kind <KIND>                        Swept parameter: thread-count, producers, consumers\n" ++
  "      --layout <LAYOUT>                    Figure layout: single, combined, four-metric, paired, six-panel, " ++
  "peak-memory, bfs\n" ++
  "      --mode <MODE>                        Directory convention: flat, subfolder, variant\n" ++
  "      --variant <VARIANTS>                 Variant label per root (repeat once per root)\n" ++
  "      --queues <QUEUES>                    Only plot these queue types (comma separated, repeatable)\n" ++
  "      --highlight <HIGHLIGHT>              Emphasise these queue types over a muted background\n" ++
  "      --ignore <IGNORE>                    Never plot these queue types\n" ++
  "      --right <RIGHT>                      Queue types shown on the right of paired layouts\n" ++
  "      --metric <METRIC>                    Metric for single, paired and six-panel layouts\n" ++
  "      --x-ticks <X_TICKS>                  Horizontal tick positions, comma separated\n" ++
  "      --per-trial                          Plot each trial separately instead of averaging\n" ++
  "      --recursive                          Walk flat directory roots recursively\n" ++
  "      --prefix <PREFIX>                    Only load files whose name starts with this prefix\n" ++
  "      --fail-fast                          Abort on the first file that fails to load\n" ++
  "  -o, --output <OUTPUT>                    Output SVG path\n" ++
  "      --show                               Also print the figure to stdout\n" ++
  "      --summary-csv <SUMMARY_CSV>          Append aggregated rows to this CSV file\n" ++
  "      --config <CONFIG>                    Load the request from a TOML or JSON file; flags override it\n" ++
  "      --generate-config <GENERATE_CONFIG>  Write a sample request file and exit\n" ++
  "  -h, --help                               Print help\n" ++
  "  -V, --version                            Print version\n"

def usageText : String :=
  "error: invalid arguments\n\nUsage: plot-benchmarks [OPTIONS] [ROOTS]...\n\n" ++
    "For more information, try '--help'.\n"

def sampleRequest : Request where
  roots := ["/path/to/tau_0.5", "/path/to/tau_1", "/path/to/tau_2"]
  variants := ["0.5", "1", "2"]
  mode := .variant
  layout := .sixPanel
  right := ["lcrq_rust", "lprq_rust", "faaa_queue_rust"]
  filter := { highlight := ["lcrq_rust"] }
  output := some "six_subplot_comparison.svg"

/-- A list flag counts as given if it has items. -/
def given {α : Type} (flag standard : List α) : List α :=
  if flag.isEmpty then standard else flag

/-- Fields whose flags are given are replaced; switches only turn on. -/
def overridden (f : Flags) (r : Request) : Request where
  roots := given f.roots r.roots
  variants := given f.variants r.variants
  sweep := f.sweep.getD r.sweep
  layout := f.layout.getD r.layout
  mode := f.mode.getD r.mode
  metric := f.metric.getD r.metric
  recursive := r.recursive || f.recursive
  filter := ⟨given f.queues r.filter.allow, given f.highlight r.filter.highlight, given f.ignore r.filter.ignore⟩
  right := given f.right r.right
  ticks := given f.ticks r.ticks
  perTrial := r.perTrial || f.perTrial
  choice := { r.choice with start := f.start.or r.choice.start }
  errorMode := if f.failFast then .failFast else r.errorMode
  output := f.output.or r.output
  showText := r.showText || f.showText
  summary := f.summary.or r.summary

def formatOf (path : String) : RequestFormat :=
  match Path.extension? path with
  | some extension => if Text.lower extension = "json" then .json else .toml
  | none => .toml

def faultText : RequestFileFault → String
  | .io cause => cause.message
  | .malformed => "malformed request file"
  | .invalid fault => fault.message

def baseRequest (fs : FileSystem) (f : Flags) : Except RequestFileFault Request :=
  match f.config with
  | none => .ok {}
  | some path => Request.load fs (formatOf path) path

def requestOf (fs : FileSystem) (f : Flags) : Except RequestFileFault Request :=
  (baseRequest fs f).map (overridden f)

def failed (fs : FileSystem) (message : String) : Outcome :=
  ⟨1, "", "Error: " ++ message ++ "\n", fs⟩

def writeSample (fs : FileSystem) (path : String) : Outcome :=
  match Request.save fs .toml path sampleRequest with
  | .ok fs => ⟨0, "Sample request written to " ++ path ++ "\n", "", fs⟩
  | .error cause => failed fs ("failed to write " ++ path ++ ": " ++ cause.message)

def reportText (report : RunReport) : String :=
  s!"Wrote {report.output} ({report.records} records from {report.loaded} files, {report.failed} skipped)\n"

def runRequest (fs : FileSystem) (r : Request) : Outcome :=
  let result := r.run fs
  match result.answer with
  | .ok report => ⟨0, result.shown ++ reportText report, "", result.files⟩
  | .error failure => failed result.files failure.message

def runFlags (fs : FileSystem) (f : Flags) : Outcome :=
  match f.sample with
  | some path => writeSample fs path
  | none =>
    match requestOf fs f with
    | .error fault => failed fs (faultText fault)
    | .ok request => runRequest fs request

def run (fs : FileSystem) (args : List String) : Outcome :=
  match read {} args with
  | .flags flags => runFlags fs flags
  | .help => ⟨0, helpText, "", fs⟩
  | .version => ⟨0, versionText, "", fs⟩
  | .refused => ⟨2, "", usageText, fs⟩

end SweepPlot.CommandLine
