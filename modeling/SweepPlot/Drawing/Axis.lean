import SweepPlot.Number.Printed
import SweepPlot.Schema
set_option autoImplicit false

namespace SweepPlot.Drawing

class AxisNumber (α : Type) where
  log10 : α → α
  floor : α → α
  ceil : α → α
  size : α → α
  larger : α → α → α

instance : AxisNumber Float where
  log10 := Float.log10
  floor := Float.floor
  ceil := Float.ceil
  size := Float.abs
  larger := Number.greatest

section Ranges

variable {α : Type} [Add α] [Sub α] [Mul α] [LT α] [DecidableLT α] [OfScientific α] [AxisNumber α]

def toAxis (scale : Scale) (value : α) : α :=
  match scale with
  | .linear => value
  | .log => AxisNumber.log10 value

/-- At least one decade, from the one at or below the lowest value to the one at or above the highest. -/
def decadeRange (low high : α) : α × α :=
  let bottom := AxisNumber.floor low
  (bottom, AxisNumber.larger (AxisNumber.ceil high) (bottom + 1.0))

/-- A twentieth of the span on both sides, or a tenth of the value where there is no span. -/
def paddedRange (low high : α) : α × α :=
  let span := high - low
  let margin :=
    if 0.0 < span then span * 0.05 else AxisNumber.larger (AxisNumber.size low) 1.0 * 0.1
  (low - margin, high + margin)

/-- Vertical range in axis units; without data it is drawn around the unit interval. -/
def axisRange (scale : Scale) (range : Option (α × α)) : α × α :=
  match scale, range with
  | .log, some (low, high) => decadeRange (AxisNumber.log10 low) (AxisNumber.log10 high)
  | .log, none => decadeRange 0.0 1.0
  | .linear, some (low, high) => paddedRange low high
  | .linear, none => paddedRange 0.0 1.0

end Ranges

def infinity : Float := Float.ofBits 0x7FF0000000000000

def horizontalRange (ticks points : List Float) : Float × Float :=
  let low := (ticks ++ points).foldl Number.least infinity
  let high := (ticks ++ points).foldl Number.greatest (-infinity)
  if Number.isFinite low then (low - 1.0, high + 1.0) else (0.0 - 1.0, 1.0 + 1.0)

def raised (c : Char) : Char :=
  match c with
  | '-' => '⁻'
  | '0' => '⁰'
  | '1' => '¹'
  | '2' => '²'
  | '3' => '³'
  | '4' => '⁴'
  | '5' => '⁵'
  | '6' => '⁶'
  | '7' => '⁷'
  | '8' => '⁸'
  | '9' => '⁹'
  | other => other

def superscript (n : Int) : String :=
  (toString n).map raised

def dropLast (c : Char) (cs : List Char) : List Char :=
  (cs.reverse.dropWhile (· == c)).reverse

def plainTick (value : Float) : String :=
  let short := String.ofList (dropLast '.' (dropLast '0' (Number.fixed 3 value).toList))
  if short = "-0" then "0" else short

/-- Ticks of a log axis stand at whole decades only. -/
def tickText (scale : Scale) (value : Float) : String :=
  match scale with
  | .log =>
    let decade := Number.roundAway value
    if Number.isFinite value && 1e-6 < (value - Float.ofInt decade).abs then ""
    else "10" ++ superscript (Number.clampInt64 decade)
  | .linear =>
    if value != 0.0 && 1e4 ≤ value.abs then Number.scientific 1 value else plainTick value

end SweepPlot.Drawing
