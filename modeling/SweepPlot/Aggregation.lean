import SweepPlot.Record
set_option autoImplicit false

/-!
Repeated trials reduced to one value per key. Records share a group when every key field agrees; groups
stand in the order in which their keys are first met. A metric is the mean or the largest of the values
present, and absent where no record of the group has one.
-/

namespace SweepPlot

class Quantity (α : Type) where
  zero : α
  add : α → α → α
  divCount : α → Nat → α
  less : α → α → Bool

instance : Quantity Float where
  zero := 0.0
  add a b := a + b
  divCount a n := a / Float.ofNat n
  less a b := Number.below a b

inductive KeyField where
  | testId
  | count (sweep : Sweep)
  | queueType
  | subfolder
  | variant
  deriving DecidableEq, Repr

inductive KeyValue where
  | missing
  | int (value : Int)
  | text (value : String)
  deriving DecidableEq, Repr

inductive Reduction where
  | mean
  | max
  deriving DecidableEq, Repr

structure Reduced (α : Type) where
  value : α
  contributors : Nat
  deriving DecidableEq, Repr

/-- What stands outside the key is taken from the first record of the group. -/
structure Group (α : Type) where
  key : List KeyValue
  queue : String
  subfolder : Option String
  variant : Option String
  testId : Option String
  counts : PerSweep (Option Int)
  records : Nat
  metrics : PerMetric (Option (Reduced α))
  deriving DecidableEq

structure Aggregation where
  keys : List KeyField
  metrics : List Metric
  reduction : Reduction := .mean
  deriving DecidableEq, Repr

namespace Reduction

def all : List Reduction := [mean, max]

def token : Reduction → String
  | mean => "mean"
  | max => "max"

end Reduction

namespace KeyValue

def ofText : Option String → KeyValue
  | some s => text s
  | none => missing

end KeyValue

namespace KeyField

def valueOf {α : Type} (r : Record α) : KeyField → KeyValue
  | testId => .ofText r.testId
  | count sweep =>
    match r.count sweep with
    | some v => .int v
    | none => .missing
  | queueType => .text r.queue
  | subfolder => .ofText r.subfolder
  | variant => .ofText r.variant

end KeyField

namespace Group

variable {α : Type}

def count (g : Group α) (sweep : Sweep) : Option Int :=
  g.counts.get sweep

def metric (g : Group α) (m : Metric) : Option α :=
  (g.metrics.get m).map (·.value)

def contributors (g : Group α) (m : Metric) : Nat :=
  match g.metrics.get m with
  | some reduced => reduced.contributors
  | none => 0

end Group

structure Tally (α : Type) where
  sum : α
  largest : α
  count : Nat
  deriving DecidableEq, Repr

namespace Tally

variable {α : Type} [Quantity α]

def empty : Tally α := ⟨Quantity.zero, Quantity.zero, 0⟩

def push (t : Tally α) (v : α) : Tally α where
  sum := Quantity.add t.sum v
  largest := if t.count = 0 || Quantity.less t.largest v then v else t.largest
  count := t.count + 1

def reduce (t : Tally α) (reduction : Reduction) : Option (Reduced α) :=
  if t.count = 0 then none
  else some ⟨match reduction with
    | .mean => Quantity.divCount t.sum t.count
    | .max => t.largest, t.count⟩

end Tally

structure OpenGroup (α : Type) where
  key : List KeyValue
  first : Record α
  records : Nat
  tallies : PerMetric (Tally α)

namespace Aggregation

/-- A chart over a swept count keeps queue types, subfolders and variants apart, and trials too if asked. -/
def forChart (sweep : Sweep) (perTrial : Bool) : Aggregation where
  keys := (if perTrial then [.testId] else []) ++ [.count sweep, .queueType, .subfolder, .variant]
  metrics := Metric.all

def bfs (dataset : Option KeyField) : Aggregation where
  keys := dataset.toList ++ [.queueType]
  metrics := [.milliseconds]

def peakMemory : Aggregation where
  keys := [.queueType]
  metrics := [.memory]
  reduction := .max

variable {α : Type} [Quantity α]

def keyOf (a : Aggregation) (r : Record α) : List KeyValue :=
  a.keys.map (KeyField.valueOf r)

def start (key : List KeyValue) (r : Record α) : OpenGroup α :=
  ⟨key, r, 0, .ofFn fun _ => Tally.empty⟩

def tallyInto (r : Record α) (tallies : PerMetric (Tally α)) (m : Metric) : PerMetric (Tally α) :=
  match r.metric m with
  | some v => tallies.set m ((tallies.get m).push v)
  | none => tallies

def addRecord (a : Aggregation) (r : Record α) (g : OpenGroup α) : OpenGroup α :=
  { g with records := g.records + 1, tallies := a.metrics.foldl (tallyInto r) g.tallies }

def place (a : Aggregation) (key : List KeyValue) (r : Record α) : List (OpenGroup α) → List (OpenGroup α)
  | [] => [a.addRecord r (start key r)]
  | g :: gs => if g.key = key then a.addRecord r g :: gs else g :: a.place key r gs

def close (a : Aggregation) (g : OpenGroup α) : Group α where
  key := g.key
  queue := g.first.queue
  subfolder := g.first.subfolder
  variant := g.first.variant
  testId := g.first.testId
  counts := g.first.counts
  records := g.records
  metrics := .ofFn fun m =>
    if m ∈ a.metrics then (g.tallies.get m).reduce a.reduction else none

def groups (a : Aggregation) (d : Dataset α) : List (Group α) :=
  (d.foldl (fun gs r => a.place (a.keyOf r) r gs) []).map a.close

end Aggregation

end SweepPlot
