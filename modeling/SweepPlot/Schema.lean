import SweepPlot.Number.Exact
import SweepPlot.Text
set_option autoImplicit false

namespace SweepPlot

inductive Sweep where
  | threads
  | producers
  | consumers
  deriving DecidableEq, Repr

inductive Metric where
  | throughput
  | fairness
  | enqueues
  | dequeues
  | memory
  | milliseconds
  deriving DecidableEq, Repr

inductive Scale where
  | linear
  | log
  deriving DecidableEq, Repr

inductive Field where
  | queueType
  | testId
  | count (sweep : Sweep)
  | metric (metric : Metric)
  deriving DecidableEq, Repr

namespace Scale

def token : Scale → String
  | linear => "linear"
  | log => "log"

def all : List Scale := [linear, log]

/-- Only positive values have a place on a log axis. -/
def accepts (scale : Scale) (value : Float) : Bool :=
  match scale with
  | linear => Number.isFinite value
  | log => Number.isFinite value && Number.below 0.0 value

end Scale

namespace Sweep

def all : List Sweep := [threads, producers, consumers]

def token : Sweep → String
  | threads => "thread-count"
  | producers => "producers"
  | consumers => "consumers"

def column : Sweep → String
  | threads => "Thread Count"
  | producers => "Producers"
  | consumers => "Consumers"

def axisLabel : Sweep → String
  | threads => "Thread Count"
  | producers => "Producer Count"
  | consumers => "Consumer Count"

def ofWord? : String → Option Sweep
  | "thread-count" | "threads" | "thread_count" => some threads
  | "producers" | "producer" | "mpsc" => some producers
  | "consumers" | "consumer" | "spmc" => some consumers
  | _ => none

def defaultTicks : List Int := [2, 6, 10, 14, 18, 22, 26, 30, 34, 36]

theorem mem_all (s : Sweep) : s ∈ all := by
  cases s <;> simp [all]

end Sweep

namespace Metric

def all : List Metric := [throughput, fairness, enqueues, dequeues, memory, milliseconds]

def swept : List Metric := [throughput, fairness, enqueues, dequeues]

def token : Metric → String
  | throughput => "throughput"
  | fairness => "fairness"
  | enqueues => "enqueues"
  | dequeues => "dequeues"
  | memory => "memory-allocated"
  | milliseconds => "milliseconds"

def column : Metric → String
  | throughput => "Throughput"
  | fairness => "Fairness"
  | enqueues => "Enqueues"
  | dequeues => "Dequeues"
  | memory => "Memory Allocated"
  | milliseconds => "Milliseconds"

def axisLabel : Metric → String
  | throughput => "Throughput (ops/s)"
  | fairness => "Fairness"
  | enqueues => "Enqueues"
  | dequeues => "Dequeues"
  | memory => "Memory Allocated (bytes)"
  | milliseconds => "Time (ms)"

def isBytes (m : Metric) : Bool := m == memory

/-- Rates, sizes and times span orders of magnitude and are drawn on a log axis unless a panel says otherwise. -/
def scale : Metric → Scale
  | throughput | memory | milliseconds => .log
  | fairness | enqueues | dequeues => .linear

def ofWord? : String → Option Metric
  | "throughput" => some throughput
  | "fairness" => some fairness
  | "enqueues" => some enqueues
  | "dequeues" => some dequeues
  | "memory" | "memory-allocated" | "memory allocated" => some memory
  | "milliseconds" | "ms" => some milliseconds
  | _ => none

theorem mem_all (m : Metric) : m ∈ all := by
  cases m <;> simp [all]

end Metric

namespace Field

def queueTypeColumn : String := "Queuetype"
def testIdColumn : String := "Test ID"
def subfolderColumn : String := "Subfolder"
def variantColumn : String := "Variant"

def column : Field → String
  | queueType => queueTypeColumn
  | testId => testIdColumn
  | count s => s.column
  | metric m => m.column

def all : List Field :=
  [queueType, testId] ++ Sweep.all.map count ++ Metric.all.map metric

def ofColumn? (name : String) : Option Field :=
  all.find? fun field => field.column == name

theorem ofColumn?_column (field : Field) : ofColumn? field.column = some field := by
  cases field with
  | queueType => decide +kernel
  | testId => decide +kernel
  | count s => cases s <;> decide +kernel
  | metric m => cases m <;> decide +kernel

theorem column_of_ofColumn? {name : String} {field : Field} (h : ofColumn? name = some field) :
    field.column = name := by
  simpa using List.find?_some h

end Field

structure PerSweep (α : Type) where
  threads : α
  producers : α
  consumers : α
  deriving DecidableEq, Repr

namespace PerSweep

def ofFn {α : Type} (f : Sweep → α) : PerSweep α :=
  ⟨f .threads, f .producers, f .consumers⟩

def get {α : Type} (t : PerSweep α) : Sweep → α
  | .threads => t.threads
  | .producers => t.producers
  | .consumers => t.consumers

def set {α : Type} (t : PerSweep α) (s : Sweep) (a : α) : PerSweep α :=
  ofFn fun k => if k = s then a else t.get k

def toList {α : Type} (t : PerSweep α) : List α :=
  Sweep.all.map t.get

@[simp] theorem get_ofFn {α : Type} (f : Sweep → α) (s : Sweep) : (ofFn f).get s = f s := by
  cases s <;> rfl

@[simp] theorem get_set {α : Type} (t : PerSweep α) (s k : Sweep) (a : α) :
    (t.set s a).get k = if k = s then a else t.get k := by
  simp [set]

theorem ext_get {α : Type} {t u : PerSweep α} (h : ∀ s, t.get s = u.get s) : t = u := by
  cases t; cases u
  have h1 := h .threads
  have h2 := h .producers
  have h3 := h .consumers
  simp_all [get]

end PerSweep

structure PerMetric (α : Type) where
  throughput : α
  fairness : α
  enqueues : α
  dequeues : α
  memory : α
  milliseconds : α
  deriving DecidableEq, Repr

namespace PerMetric

def ofFn {α : Type} (f : Metric → α) : PerMetric α :=
  ⟨f .throughput, f .fairness, f .enqueues, f .dequeues, f .memory, f .milliseconds⟩

def get {α : Type} (t : PerMetric α) : Metric → α
  | .throughput => t.throughput
  | .fairness => t.fairness
  | .enqueues => t.enqueues
  | .dequeues => t.dequeues
  | .memory => t.memory
  | .milliseconds => t.milliseconds

def set {α : Type} (t : PerMetric α) (m : Metric) (a : α) : PerMetric α :=
  ofFn fun k => if k = m then a else t.get k

def toList {α : Type} (t : PerMetric α) : List α :=
  Metric.all.map t.get

@[simp] theorem get_ofFn {α : Type} (f : Metric → α) (m : Metric) : (ofFn f).get m = f m := by
  cases m <;> rfl

@[simp] theorem get_set {α : Type} (t : PerMetric α) (m k : Metric) (a : α) :
    (t.set m a).get k = if k = m then a else t.get k := by
  simp [set]

theorem ext_get {α : Type} {t u : PerMetric α} (h : ∀ m, t.get m = u.get m) : t = u := by
  cases t; cases u
  have h1 := h .throughput
  have h2 := h .fairness
  have h3 := h .enqueues
  have h4 := h .dequeues
  have h5 := h .memory
  have h6 := h .milliseconds
  simp_all [get]

end PerMetric

end SweepPlot
