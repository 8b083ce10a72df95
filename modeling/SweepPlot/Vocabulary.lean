import SweepPlot.Schema
set_option autoImplicit false

namespace SweepPlot

inductive LayoutKind where
  | single
  | combined
  | fourMetric
  | paired
  | sixPanel
  | peakMemory
  | bfs
  deriving DecidableEq, Repr

/-- How input roots become one dataset: concatenated, one series source per subfolder, or one root per variant. -/
inductive MergeMode where
  | flat
  | subfolder
  | variant
  deriving DecidableEq, Repr

inductive ErrorMode where
  | failFast
  | collectErrors
  deriving DecidableEq, Repr

/-- A word that names nothing, with its text as it is reported. -/
inductive WordFault where
  | sweep (word : String)
  | metric (word : String)
  | mode (word : String)
  | layout (word : String)
  | color (word : String)
  deriving DecidableEq, Repr

namespace LayoutKind

def all : List LayoutKind :=
  [single, combined, fourMetric, paired, sixPanel, peakMemory, bfs]

def token : LayoutKind → String
  | single => "single"
  | combined => "combined"
  | fourMetric => "four-metric"
  | paired => "paired"
  | sixPanel => "six-panel"
  | peakMemory => "peak-memory"
  | bfs => "bfs"

def fileName (kind : LayoutKind) (sweep : Sweep) : String :=
  match kind, sweep with
  | single, .threads | fourMetric, .threads => "thread_count_benchmark.svg"
  | single, .producers | fourMetric, .producers => "mpsc_benchmark.svg"
  | single, .consumers | fourMetric, .consumers => "spmc_benchmark.svg"
  | combined, _ => "Combined_Performance_Metrics.svg"
  | paired, _ => "side_by_side_comparison.svg"
  | sixPanel, _ => "six_subplot_comparison.svg"
  | peakMemory, _ => "peak_memory.svg"
  | bfs, _ => "bfs_benchmark.svg"

def ofToken? (s : String) : Option LayoutKind :=
  all.find? fun kind => kind.token == s

/-- Case, blanks around the word and underscores for dashes do not matter. -/
def ofWord (s : String) : Except WordFault LayoutKind :=
  let plain := (Text.lower (Text.trim s)).map fun c => if c = '_' then '-' else c
  match ofToken? plain with
  | some kind => .ok kind
  | none => .error (.layout s)

theorem ofToken?_token (kind : LayoutKind) : ofToken? kind.token = some kind := by
  cases kind <;> decide +kernel

end LayoutKind

namespace MergeMode

def all : List MergeMode := [flat, subfolder, variant]

def token : MergeMode → String
  | flat => "flat"
  | subfolder => "subfolder"
  | variant => "variant"

def ofToken? (s : String) : Option MergeMode :=
  all.find? fun mode => mode.token == s

def ofWord (s : String) : Except WordFault MergeMode :=
  match Text.lower (Text.trim s) with
  | "flat" => .ok flat
  | "subfolder" | "subfolders" => .ok subfolder
  | "variant" | "variants" | "tau" => .ok variant
  | other => .error (.mode other)

theorem ofToken?_token (mode : MergeMode) : ofToken? mode.token = some mode := by
  cases mode <;> decide +kernel

end MergeMode

namespace ErrorMode

def all : List ErrorMode := [failFast, collectErrors]

def token : ErrorMode → String
  | failFast => "fail-fast"
  | collectErrors => "collect-errors"

def ofToken? (s : String) : Option ErrorMode :=
  all.find? fun mode => mode.token == s

theorem ofToken?_token (mode : ErrorMode) : ofToken? mode.token = some mode := by
  cases mode <;> decide +kernel

end ErrorMode

namespace Sweep

def ofToken? (s : String) : Option Sweep :=
  all.find? fun sweep => sweep.token == s

def ofWord (s : String) : Except WordFault Sweep :=
  let plain := Text.lower s
  match ofWord? plain with
  | some sweep => .ok sweep
  | none => .error (.sweep plain)

theorem ofToken?_token (sweep : Sweep) : ofToken? sweep.token = some sweep := by
  cases sweep <;> decide +kernel

end Sweep

namespace Metric

def ofToken? (s : String) : Option Metric :=
  all.find? fun metric => metric.token == s

def ofWord (s : String) : Except WordFault Metric :=
  let plain := Text.lower s
  match ofWord? plain with
  | some metric => .ok metric
  | none => .error (.metric plain)

theorem ofToken?_token (metric : Metric) : ofToken? metric.token = some metric := by
  cases metric <;> decide +kernel

end Metric

def WordFault.message : WordFault → String
  | sweep word => s!"unknown chart kind '{word}' (expected thread-count, producers or consumers)"
  | metric word => s!"unknown metric '{word}'"
  | mode word => s!"unknown merge mode '{word}' (expected flat, subfolder or variant)"
  | layout word =>
    s!"unknown layout '{word}', expected one of: " ++ String.intercalate ", " (LayoutKind.all.map LayoutKind.token)
  | color word => s!"invalid colour '{word}' (expected #rrggbb or a colour name)"

end SweepPlot
