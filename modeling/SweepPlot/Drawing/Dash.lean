import SweepPlot.Number.Exact
set_option autoImplicit false

namespace SweepPlot.Drawing

class Countable (α : Type) where
  timesIn : α → α → Nat

instance : Countable Float where
  timesIn := Number.timesIn

structure Vertex (α : Type) where
  x : α
  y : α
  deriving DecidableEq, Repr

structure Segment (α : Type) where
  start : Vertex α
  stop : Vertex α
  length : α

/-- Finished runs, the points since the last cut, the place in the pattern, and what is left of its entry. -/
structure Pen (α : Type) where
  runs : List (List (Vertex α))
  current : List (Vertex α)
  index : Nat
  left : α
  down : Bool

section Dash

variable {α : Type} [Add α] [Sub α] [Mul α] [Div α] [LT α] [DecidableLT α] [LE α] [DecidableLE α]
  [OfScientific α] [Countable α]

def Vertex.between (a b : Vertex α) (t : α) : Vertex α :=
  ⟨a.x + (b.x - a.x) * t, a.y + (b.y - a.y) * t⟩

def entry (pattern : List α) (index : Nat) : α :=
  pattern.getD (index % pattern.length) 0.0

namespace Pen

def start (pattern : List α) (first : Vertex α) : Pen α :=
  ⟨[], [first], 0, entry pattern 0, true⟩

/-- A cut lifts the pen and closes the run, or puts it down where the next run begins. -/
def cut (pen : Pen α) (pattern : List α) (point : Vertex α) : Pen α where
  runs := if pen.down then pen.runs ++ [pen.current ++ [point]] else pen.runs
  current := if pen.down then [] else pen.current ++ [point]
  index := pen.index + 1
  left := entry pattern (pen.index + 1)
  down := !pen.down

/-- Cuts on a segment from the part t on, each closer to its end than a bound that the pattern gives. -/
def cuts (pattern : List α) (s : Segment α) : Nat → α → Pen α → Pen α
  | 0, t, pen => { pen with left := pen.left - (1.0 - t) * s.length }
  | bound + 1, t, pen =>
    if pen.left + 1e-9 < (1.0 - t) * s.length then
      let t := t + pen.left / s.length
      cuts pattern s bound t (pen.cut pattern (s.start.between s.stop t))
    else { pen with left := pen.left - (1.0 - t) * s.length }

def shortest (pattern : List α) : α :=
  pattern.foldl (fun least d => if d < least then d else least) (entry pattern 0)

def bound (pattern : List α) (s : Segment α) : Nat :=
  2 * Countable.timesIn s.length (shortest pattern) + 4

def reach (pen : Pen α) (vertex : Vertex α) : Pen α :=
  if pen.down then { pen with current := pen.current ++ [vertex] } else pen

def follow (pattern : List α) (pen : Pen α) (s : Segment α) : Pen α :=
  let pen := if 0.0 < s.length then cuts pattern s (bound pattern s) 0.0 pen else pen
  pen.reach s.stop

def finish (pen : Pen α) : List (List (Vertex α)) :=
  if pen.down && decide (2 ≤ pen.current.length) then pen.runs ++ [pen.current] else pen.runs

end Pen

def segments : List (Vertex α) → List α → List (Segment α)
  | a :: b :: rest, length :: lengths => ⟨a, b, length⟩ :: segments (b :: rest) lengths
  | _, _ => []

/-- Runs of a line whose segments have the given lengths; without a usable pattern the line is one run. -/
def dashRuns (line : List (Vertex α)) (lengths : List α) (pattern : List α) : List (List (Vertex α)) :=
  match line with
  | first :: _ :: _ =>
    if pattern.isEmpty || pattern.any (fun d => decide (d ≤ 0.0)) || lengths.length + 1 != line.length then
      [line]
    else ((segments line lengths).foldl (Pen.follow pattern) (Pen.start pattern first)).finish
  | _ => []

end Dash

def distance (p q : Vertex Float) : Float :=
  Float.sqrt ((q.x - p.x) * (q.x - p.x) + (q.y - p.y) * (q.y - p.y))

def distances : List (Vertex Float) → List Float
  | p :: q :: rest => distance p q :: distances (q :: rest)
  | _ => []

def dashLine (line screen : List (Vertex Float)) (pattern : List Float) : List (List (Vertex Float)) :=
  dashRuns line (distances screen) pattern

end SweepPlot.Drawing
