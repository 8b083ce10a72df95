import SweepPlot.Bytes
import SweepPlot.Distinct
import SweepPlot.Schema
set_option autoImplicit false

namespace SweepPlot

/-- A row whose metrics are numbers of type α: doubles when a program runs, exact ones when a law needs them. -/
structure Record (α : Type) where
  queue : String
  counts : PerSweep (Option Int) := ⟨none, none, none⟩
  testId : Option String := none
  metrics : PerMetric (Option α) := ⟨none, none, none, none, none, none⟩
  subfolder : Option String := none
  variant : Option String := none
  source : Option Bytes := none
  deriving DecidableEq

abbrev Dataset (α : Type := Float) := List (Record α)

namespace Record

variable {α : Type}

def count (r : Record α) (sweep : Sweep) : Option Int :=
  r.counts.get sweep

def metric (r : Record α) (m : Metric) : Option α :=
  r.metrics.get m

def setCount (r : Record α) (sweep : Sweep) (value : Option Int) : Record α :=
  { r with counts := r.counts.set sweep value }

def setMetric (r : Record α) (m : Metric) (value : Option α) : Record α :=
  { r with metrics := r.metrics.set m value }

def has (r : Record α) : Field → Bool
  | .queueType => true
  | .testId => r.testId.isSome
  | .count sweep => (r.count sweep).isSome
  | .metric m => (r.metric m).isSome

end Record

namespace Dataset

variable {α : Type}

def stampSubfolder (name : String) (d : Dataset α) : Dataset α :=
  d.map fun r => { r with subfolder := some name }

def stampVariant (label : String) (d : Dataset α) : Dataset α :=
  d.map fun r => { r with variant := some label }

def stampSource (path : Bytes) (d : Dataset α) : Dataset α :=
  d.map fun r => { r with source := some path }

def queueTypes (d : Dataset α) : List String :=
  distinct (d.map (·.queue))

def subfolders (d : Dataset α) : List String :=
  distinct (d.filterMap (·.subfolder))

def containsQueue (d : Dataset α) (queue : String) : Bool :=
  d.any fun r => r.queue == queue

end Dataset

theorem Dataset.mem_queueTypes {α : Type} {d : Dataset α} {queue : String} :
    queue ∈ d.queueTypes ↔ ∃ r ∈ d, r.queue = queue := by
  simp [Dataset.queueTypes, mem_distinct]

theorem Dataset.containsQueue_iff {α : Type} {d : Dataset α} {queue : String} :
    d.containsQueue queue = true ↔ queue ∈ d.queueTypes := by
  simp [Dataset.containsQueue, Dataset.queueTypes, mem_distinct]

end SweepPlot
