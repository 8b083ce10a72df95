import SweepPlot.Failure
import SweepPlot.Filter
set_option autoImplicit false

namespace SweepPlot

inductive PanelKind where
  | lines
  | bars
  deriving DecidableEq, Repr

inductive DatasetTag where
  | subfolder
  | variant
  deriving DecidableEq, Repr

structure PanelSpec where
  metric : Metric
  row : Nat
  col : Nat
  scale : Scale := metric.scale
  kind : PanelKind := .lines
  variant : Option String := none
  subfolder : Option String := none
  selection : Selection := .all
  highlight : Bool := true
  title : Option String := none
  sideLabel : Option String := none
  deriving DecidableEq, Repr

structure Layout where
  rows : Nat
  cols : Nat
  width : Nat
  height : Nat
  title : Option String := none
  shareY : Bool := false
  panels : List PanelSpec := []
  deriving DecidableEq, Repr

namespace PanelKind

def token : PanelKind → String
  | lines => "lines"
  | bars => "bars"

def all : List PanelKind := [lines, bars]

end PanelKind

namespace Layout

/-- Sizes are counted in 32-bit words. -/
def pixels (n : Nat) : Nat :=
  n % Number.wordCount

def pairedLeftTitle : String := "Rust ecosystem and C++ queues"
def pairedRightTitle : String := "Our queues"

def single (metric : Metric) : Layout where
  rows := 1
  cols := 1
  width := 1000
  height := 700
  panels := [{ metric, row := 0, col := 0 }]

def combined : Layout where
  rows := 1
  cols := 2
  width := 1200
  height := 800
  title := some "Combined Performance Metrics"
  panels :=
    [{ metric := .throughput, row := 0, col := 0, title := some "Throughput" },
     { metric := .fairness, row := 0, col := 1, title := some "Fairness" }]

def fourMetric : Layout where
  rows := 2
  cols := 2
  width := 1200
  height := 1000
  title := some "Performance Metrics"
  panels := Metric.swept.zipIdx.map fun (metric, i) =>
    { metric, row := i / 2, col := i % 2, title := some metric.column }

def leftPanel (metric : Metric) (row : Nat) (right : List String) : PanelSpec where
  metric := metric
  row := row
  col := 0
  selection := .excluding right
  highlight := false

def rightPanel (metric : Metric) (row : Nat) : PanelSpec where
  metric := metric
  row := row
  col := 1

def paired (metric : Metric) (right : List String) : Layout where
  rows := 1
  cols := 2
  width := 1200
  height := 800
  shareY := true
  panels :=
    [{ leftPanel metric 0 right with title := some pairedLeftTitle },
     { rightPanel metric 0 with title := some pairedRightTitle }]

def sixPanel (metric : Metric) (variants right : List String) : Layout where
  rows := variants.length
  cols := 2
  width := 1000
  height := pixels (150 + 320 * max variants.length 1)
  shareY := true
  panels := variants.zipIdx.flatMap fun (variant, row) =>
    [{ leftPanel metric row right with variant := some variant },
     { rightPanel metric row with variant := some variant, sideLabel := some ("τ = " ++ variant) }]

def peakMemory : Layout where
  rows := 1
  cols := 1
  width := 1000
  height := 700
  title := some "Peak Memory Usage by Queue Type"
  panels := [{ metric := .memory, row := 0, col := 0, kind := .bars }]

def timeBars (col : Nat) : PanelSpec where
  metric := .milliseconds
  row := 0
  col := col
  scale := .linear
  kind := .bars

def taggedBars (tag : DatasetTag) (name : String) (col : Nat) : PanelSpec :=
  match tag with
  | .subfolder => { timeBars col with title := some name, subfolder := some name }
  | .variant => { timeBars col with title := some name, variant := some name }

/-- One panel per dataset, or a single panel when datasets are not told apart. -/
def bfs (datasets : List String) (tag : DatasetTag) : Layout where
  rows := 1
  cols := max datasets.length 1
  width := max (pixels (550 * datasets.length)) 900
  height := 700
  title := some "BFS Benchmark Results"
  panels :=
    if datasets.isEmpty then [timeBars 0]
    else datasets.zipIdx.map fun (name, col) => taggedBars tag name col

def panelAt? (layout : Layout) (row col : Nat) : Option PanelSpec :=
  layout.panels.find? fun p => p.row == row && p.col == col

def sharesCell (p q : PanelSpec) : Bool :=
  p.row == q.row && p.col == q.col

def checkPanels (layout : Layout) (earlier : List PanelSpec) : List PanelSpec → Except LayoutFault Unit
  | [] => .ok ()
  | p :: rest =>
    if layout.rows ≤ p.row ∨ layout.cols ≤ p.col then
      .error (.outside earlier.length p.row p.col layout.rows layout.cols)
    else if earlier.any (sharesCell p) then .error (.sharedCell p.row p.col)
    else checkPanels layout (p :: earlier) rest

def validate (layout : Layout) : Except LayoutFault Unit :=
  if layout.rows = 0 ∨ layout.cols = 0 then .error (.emptyGrid layout.rows layout.cols)
  else if layout.panels.isEmpty then .error .noPanels
  else if layout.width < 200 ∨ layout.height < 200 then .error (.tooSmall layout.width layout.height)
  else checkPanels layout [] layout.panels

end Layout

end SweepPlot
