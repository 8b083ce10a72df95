import SweepPlot.Style.Registry
import SweepPlot.Number.Exact
set_option autoImplicit false

namespace SweepPlot.Drawing

structure Ink where
  color : Color
  opacity : Float

inductive Anchor where
  | start
  | middle
  | last
  deriving DecidableEq, Repr

abbrev Pixel := Int × Int

structure Caption where
  content : String
  position : Pixel
  size : Nat
  anchor : Anchor
  turned : Bool := false

inductive Element where
  | text (caption : Caption) (ink : Ink)
  | circle (center : Pixel) (radius : Int) (ink : Ink)
  | rect (corner : Pixel) (width height : Int) (ink : Ink)
  | polygon (corners : List Pixel) (ink : Ink)
  | polyline (points : List Pixel) (ink : Ink) (width : Nat)

structure Scene where
  width : Nat
  height : Nat
  elements : List Element

def blackInk : Ink := ⟨.black, 1.0⟩

def inkOf (style : DrawStyle) : Ink :=
  ⟨style.color, style.alpha⟩

/-- Widths of strokes are whole pixels, at least one. -/
def strokeWidth (width : Float) : Nat :=
  (min (max 1 (Number.roundAway width)) (Number.wordCount - 1)).toNat

def moved (center : Pixel) (offset : Pixel) : Pixel :=
  (center.1 + offset.1, center.2 + offset.2)

end SweepPlot.Drawing
