import SweepPlot.Record
import SweepPlot.Style.Names
import SweepPlot.Style.Palette
set_option autoImplicit false

/-!
Which style each queue type has in one figure. A well-known type takes its priority as slot; other types
take the slots after the known ones, those of one call in name order. A style is that of its slot, but a
pinned colour replaces the colour of the slot: a pin recolours a type that has its style already, and is
kept for one that gets its style later. Assigning never changes a style that was given.
-/

namespace SweepPlot

structure SeriesStyle where
  color : Color
  line : LineStyle
  marker : Marker
  slot : Nat
  deriving DecidableEq, Repr

inductive Emphasis where
  | normal
  | muted
  | highlighted
  deriving DecidableEq, Repr

structure DrawStyle where
  color : Color
  alpha : Float
  width : Float
  line : LineStyle
  marker : Marker
  emphasis : Emphasis
  deriving DecidableEq

/-- Styles in the order in which they were given, colour pins latest first. -/
structure Registry where
  styles : List (String × SeriesStyle) := []
  pins : List (String × Color) := []
  unknown : Nat := 0
  deriving DecidableEq, Repr

namespace SeriesStyle

def ofSlot (slot : Nat) : SeriesStyle where
  color := Color.palette.getD (slot % Color.palette.length) .gray
  line := LineStyle.all.getD (slot % LineStyle.all.length) .solid
  marker := Marker.all.getD (slot % Marker.all.length) .circle
  slot := slot

end SeriesStyle

namespace Emphasis

def all : List Emphasis := [normal, muted, highlighted]

def token : Emphasis → String
  | normal => "normal"
  | muted => "muted"
  | highlighted => "highlighted"

def layer : Emphasis → Nat
  | muted => 0
  | normal => 5
  | highlighted => 10

def mark : Emphasis → String
  | highlighted => " ★"
  | normal | muted => ""

def alpha : Emphasis → Float
  | muted => 0.3
  | normal | highlighted => 1.0

def width : Emphasis → Float
  | muted => 1.0
  | normal => 1.5
  | highlighted => 2.5

end Emphasis

namespace Registry

def empty : Registry := {}

def recolor (queue : String) (color : Color) (entry : String × SeriesStyle) : String × SeriesStyle :=
  if entry.1 = queue then (queue, { entry.2 with color := color }) else entry

def pin (r : Registry) (queue : String) (color : Color) : Registry :=
  { r with styles := r.styles.map (recolor queue color), pins := (queue, color) :: r.pins }

def comparison : Registry :=
  ((empty.pin "lcrq_rust" .orange).pin "lprq_rust" .pureRed).pin "faaa_queue_rust" .pureBlue

def style? (r : Registry) (queue : String) : Option SeriesStyle :=
  r.styles.lookup queue

def styleAt (r : Registry) (queue : String) (slot : Nat) : SeriesStyle :=
  let style := SeriesStyle.ofSlot slot
  { style with color := (r.pins.lookup queue).getD style.color }

def size (r : Registry) : Nat :=
  r.styles.length

def sortedNames (queues : List String) : List String :=
  (distinct queues).mergeSort fun a b => decide (a ≤ b)

def fresh (r : Registry) (queues : List String) : List String :=
  (sortedNames queues).filter fun q => (r.style? q).isNone

def newcomers (r : Registry) (queues : List String) : List String :=
  (r.fresh queues).filter fun q => (Style.priority? q).isNone

/-- Slots for the listed types that have none yet: the well-known ones, then the others in name order. -/
def freshSlots (r : Registry) (queues : List String) : List (String × Nat) :=
  (r.fresh queues).filterMap (fun q => (Style.priority? q).map (q, ·)) ++
    (r.newcomers queues).zipIdx (Style.knownCount + r.unknown)

def dress (r : Registry) (entry : String × Nat) : String × SeriesStyle :=
  (entry.1, r.styleAt entry.1 entry.2)

def assign (r : Registry) (queues : List String) : Registry :=
  { r with
    styles := r.styles ++ (r.freshSlots queues).map r.dress
    unknown := r.unknown + (r.newcomers queues).length }

def stylesOf (r : Registry) (queues : List String) : List (String × SeriesStyle) :=
  (sortedNames queues).filterMap fun q => (r.style? q).map (q, ·)

def bySlot (r : Registry) : List (String × SeriesStyle) :=
  r.styles.mergeSort fun a b => decide (a.2.slot ≤ b.2.slot)

def draw? (r : Registry) (queue : String) (emphasis : Emphasis) : Option DrawStyle :=
  (r.style? queue).map fun style =>
    { color := if emphasis = .muted then .gray else style.color
      alpha := emphasis.alpha
      width := emphasis.width
      line := style.line
      marker := style.marker
      emphasis := emphasis }

def label (queue : String) (emphasis : Emphasis) : String :=
  Style.displayName queue ++ emphasis.mark

end Registry

end SweepPlot
