import SweepPlot.Drawing.Axis
import SweepPlot.Drawing.Dash
import SweepPlot.Drawing.Outline
import SweepPlot.Drawing.Scene
import SweepPlot.Figure.Basic
set_option autoImplicit false

/-!
From a figure to its drawing: the title, the shared legend at the bottom, and one cell of the grid per
panel with axes, ticks, a grid, and lines with markers or bars. Cells, ranges of axes, dashes, outlines of
markers and the order of everything are the program's own. What a chart library settles is a stand-in: the
margins inside a cell, the ticks of the vertical axis, the mesh, and where labels are put. Inspecting a
document passes over these, no theorem speaks of them, and runs are studied for any way of drawing figures.
-/

namespace SweepPlot.Drawing

structure Box where
  left : Int
  top : Int
  width : Int
  height : Int

def titleSize : Nat := 24
def panelTitleSize : Nat := 18
def axisLabelSize : Nat := 15
def tickLabelSize : Nat := 13
def legendSize : Nat := 14
def sideLabelSize : Nat := 18
def markerRadius : Int := 4
def markerStroke : Nat := 2
def tickLength : Int := 5
def legendRow : Nat := 24
def legendColumns : Nat := 4
def sampleWidth : Int := 30
def sideLabelWidth : Int := 40
def titleHeight : Int := 30
def panelTitleHeight : Int := 25
def margin : Int := 12
def yLabelWidth : Int := 80

/-- Heights are 32-bit words. -/
def legendHeight (entries : Nat) : Nat :=
  ((entries + legendColumns - 1) / legendColumns * legendRow + 16) % Number.wordCount

namespace Box

def right (b : Box) : Int := b.left + b.width
def bottom (b : Box) : Int := b.top + b.height
def middle (b : Box) : Pixel := (b.left + b.width / 2, b.top + b.height / 2)

def belowTitle (b : Box) (height : Int) : Box :=
  { b with top := b.top + height, height := b.height - height }

/-- Where a part of a length begins; the parts at the front get the pixels that are left over. -/
def partStart (length : Int) (parts index : Nat) : Int :=
  index * (length / parts) + min (index : Int) (length % parts)

def cell (b : Box) (rows cols row col : Nat) : Box :=
  let left := partStart b.width cols col
  let right := partStart b.width cols (col + 1)
  let top := partStart b.height rows row
  let bottom := partStart b.height rows (row + 1)
  ⟨b.left + left, b.top + top, right - left, bottom - top⟩

def cells (b : Box) (rows cols : Nat) : List Box :=
  (List.range rows).flatMap fun row => (List.range cols).map fun col => b.cell rows cols row col

end Box

/-- Which of the cells of a grid stands at that row and column. -/
def cellIndex (cols row col : Nat) : Nat :=
  row * cols + col

structure Plot where
  box : Box
  x : Float × Float
  y : Float × Float

namespace Plot

def along (range : Float × Float) (v : Float) (length : Int) : Int :=
  Number.clampInt64 (Number.roundAway ((v - range.1) / (range.2 - range.1) * Float.ofInt length))

def pixel (p : Plot) (v : Vertex Float) : Pixel :=
  (p.box.left + along p.x v.x p.box.width, p.box.bottom - along p.y v.y p.box.height)

end Plot

def toScreen (pixel : Pixel) : Vertex Float :=
  ⟨Float.ofInt pixel.1, Float.ofInt pixel.2⟩

/-! ### Markers and lines -/

def markerAt (style : DrawStyle) (width : Nat) (center : Pixel) : List Element :=
  let ink := inkOf style
  let r := markerRadius
  match style.marker with
  | .circle => [.circle center r ink]
  | .square => [.rect (moved center (-r, -r)) (2 * r) (2 * r) ink]
  | .cross | .plus =>
    (strokes style.marker r).map fun stroke => .polyline (stroke.map (moved center)) ink width
  | shape => [.polygon ((outline shape r).map (moved center)) ink]

def lineElements (p : Plot) (scale : Scale) (s : Series) : List Element :=
  let line := s.points.map fun q => (⟨q.xValue, toAxis scale q.y⟩ : Vertex Float)
  let screen := line.map fun v => toScreen (p.pixel v)
  let runs := dashLine line screen s.style.line.dashes
  (runs.map fun run => .polyline (run.map p.pixel) (inkOf s.style) (strokeWidth s.style.width)) ++
    line.flatMap fun v => markerAt s.style markerStroke (p.pixel v)

def barElement (p : Plot) (scale : Scale) (index : Nat) (b : Bar) : Element :=
  let x := Float.ofNat index
  let high := p.pixel ⟨x - 0.4, toAxis scale b.value⟩
  let low := p.pixel ⟨x + 0.4, p.y.1⟩
  .rect high (low.1 - high.1) (low.2 - high.2) (inkOf b.style)

/-! ### Axes -/

/-- A step of one, two or five times a power of ten that gives about ten ticks. -/
def niceStep (span : Float) : Float :=
  let raw := span / 10.0
  let power := Float.pow 10.0 (raw.log10).floor
  if raw ≤ power then power
  else if raw ≤ 2.0 * power then 2.0 * power
  else if raw ≤ 5.0 * power then 5.0 * power
  else 10.0 * power

def multiples (step : Float) (range : Float × Float) : List Float :=
  let first := Number.roundAway (range.1 / step).ceil
  let last := Number.roundAway (range.2 / step).floor
  if 0 ≤ last - first ∧ last - first ≤ 40 then
    (List.range (last - first + 1).toNat).map fun (i : Nat) => Float.ofInt (first + i) * step
  else []

def verticalTicks (scale : Scale) (range : Float × Float) : List Float :=
  match scale with
  | .linear => multiples (niceStep (range.2 - range.1)) range
  | .log => multiples (Number.greatest 1.0 ((range.2 - range.1) / 10.0).ceil) range

def horizontalTicks (panel : Panel) : List (Float × String) :=
  match panel.content with
  | .lines _ => panel.ticks.map fun t => (Float.ofInt t, toString (Number.clampInt64 t))
  | .bars bars => bars.zipIdx.map fun (b, i) => (Float.ofNat i, b.label)

def horizontalOf (panel : Panel) : Float × Float :=
  match panel.content with
  | .lines series =>
    horizontalRange (panel.ticks.map Float.ofInt) (series.flatMap fun s => s.points.map (·.xValue))
  | .bars bars => (-0.5, Float.ofNat (max bars.length 1) - 0.5)

def gridLine (p : Plot) (v : Float) : Element :=
  let y := (p.pixel ⟨p.x.1, v⟩).2
  .polyline [(p.box.left, y), (p.box.right, y)] ⟨.black, 0.15⟩ 1

def verticalLabel (p : Plot) (scale : Scale) (v : Float) : Element :=
  let y := (p.pixel ⟨p.x.1, v⟩).2
  .text ⟨tickText scale v, (p.box.left - 10, y), tickLabelSize, .last, false⟩ blackInk

def horizontalTick (p : Plot) (turned : Bool) (tick : Float × String) : List Element :=
  let (x, y) := p.pixel ⟨tick.1, p.y.1⟩
  [.polyline [(x, y), (x, y + tickLength)] blackInk 1,
    .text ⟨tick.2, (x, y + tickLength + 3), tickLabelSize, if turned then .start else .middle, turned⟩ blackInk]

def axisLines (p : Plot) : List Element :=
  [.polyline [(p.box.left, p.box.top), (p.box.left, p.box.bottom)] blackInk 1,
    .polyline [(p.box.left, p.box.bottom), (p.box.right, p.box.bottom)] blackInk 1]

/-! ### Panels -/

def isBars : PanelContent → Bool
  | .lines _ => false
  | .bars _ => true

def inside (cell : Box) (titled : Bool) : Box :=
  let head := margin + if titled then panelTitleHeight else 0
  ⟨cell.left + margin, cell.top + head, cell.width - 2 * margin, cell.height - head - margin⟩

def footHeight (bars : Bool) : Int :=
  if bars then 150 else 45

def plotBox (box : Box) (bars : Bool) : Box :=
  ⟨box.left + yLabelWidth, box.top, box.width - yLabelWidth, box.height - footHeight bars⟩

/-- Whether the part of a side beyond the first labels is a strip of some width; the four ends of the parts
are taken in order, so that a side below zero leaves one as well. -/
def leavesPlot (length labels : Int) : Bool :=
  decide (length < 0 ∨ labels < length)

def showsXLabel (box : Box) : Bool :=
  decide (0 < box.height) && leavesPlot box.width yLabelWidth

def showsYLabel (box : Box) (bars : Bool) : Bool :=
  decide (0 < box.width) && leavesPlot box.height (footHeight bars)

def contentElements (p : Plot) (scale : Scale) : PanelContent → List Element
  | .lines series => series.flatMap (lineElements p scale)
  | .bars bars => bars.zipIdx.map fun (b, i) => barElement p scale i b

def sideLabelElements (cell : Box) (label : Option String) : Box × List Element :=
  match label with
  | none => (cell, [])
  | some label =>
    let plot := { cell with width := max 0 (cell.width - sideLabelWidth) }
    (plot, [.text ⟨label, (plot.right + sideLabelWidth / 2, cell.middle.2), sideLabelSize, .middle, true⟩ blackInk])

def emptyNotice (p : Plot) (content : PanelContent) : List Element :=
  if content.isEmpty then
    [.text ⟨"no data", p.box.middle, axisLabelSize, .middle, false⟩ ⟨.black, 0.5⟩]
  else []

def panelElements (cell : Box) (panel : Panel) : List Element :=
  let (cell, side) := sideLabelElements cell panel.sideLabel
  let bars := isBars panel.content
  let box := inside cell panel.title.isSome
  let plot : Plot :=
    { box := plotBox box bars
      x := horizontalOf panel
      y := axisRange panel.scale (panel.range.map fun r => (r.low, r.high)) }
  let ticks := verticalTicks panel.scale plot.y
  let title := panel.title.toList.map fun title =>
    .text ⟨title, (cell.middle.1, cell.top + margin), panelTitleSize, .middle, false⟩ blackInk
  let yLabel : Element :=
    .text ⟨panel.yLabel, (box.left + 8, plot.box.middle.2), axisLabelSize, .middle, true⟩ blackInk
  let xLabel : Element :=
    .text ⟨panel.xLabel, (plot.box.middle.1, box.bottom - 16), axisLabelSize, .middle, false⟩ blackInk
  side ++ title ++ ticks.map (gridLine plot) ++ axisLines plot ++
    (if showsYLabel box bars then [yLabel] else []) ++ (if showsXLabel box then [xLabel] else []) ++
    ticks.map (verticalLabel plot panel.scale) ++
    (horizontalTicks panel).flatMap (horizontalTick plot bars) ++
    contentElements plot panel.scale panel.content ++ emptyNotice plot panel.content

/-! ### Legend and figure -/

def legendEntry (box : Box) (columns : Nat) (index : Nat) (entry : LegendEntry) : List Element :=
  let x := box.left + (index % columns : Nat) * (box.width / columns) + 12
  let y := box.top + (index / columns * legendRow + legendRow / 2 + 8 : Nat)
  let sample := [toScreen (x, y), toScreen (x + sampleWidth, y)]
  let runs := dashLine sample sample entry.style.line.dashes
  let width := strokeWidth entry.style.width
  runs.map (fun run => .polyline (run.map fun v => (Number.roundAway v.x, Number.roundAway v.y))
    (inkOf entry.style) width) ++
    markerAt entry.style width (x + sampleWidth / 2, y) ++
    [.text ⟨entry.label, (x + sampleWidth + 8, y), legendSize, .start, false⟩ blackInk]

def legendElements (box : Box) (legend : Legend) : List Element :=
  let columns := max 1 (min legend.length legendColumns)
  legend.zipIdx.flatMap fun (entry, i) => legendEntry box columns i entry

def splitLegend (box : Box) (legend : Legend) : Box × List Element :=
  if legend.isEmpty then (box, [])
  else
    let height := min (legendHeight legend.length : Int) (box.height / 2)
    let plots := { box with height := box.height - height }
    (plots, legendElements { box with top := plots.bottom, height := height } legend)

def pageOf (figure : Figure) : Box :=
  ⟨0, 0, Number.wrapInt32 figure.width, Number.wrapInt32 figure.height⟩

def bodyOf (figure : Figure) : Box :=
  if figure.title.isSome then (pageOf figure).belowTitle titleHeight else pageOf figure

def plotArea (figure : Figure) : Box :=
  (splitLegend (bodyOf figure) figure.legend).1

/-- The panels and their cells, in the order in which they are drawn; without a cell a panel is left out. -/
def placements (figure : Figure) : List (Panel × Box) :=
  let cells := (plotArea figure).cells figure.rows figure.cols
  figure.panels.filterMap fun panel =>
    (cells[cellIndex figure.cols panel.row panel.col]?).map fun cell => (panel, cell)

def sceneOf (figure : Figure) : Scene :=
  let title := figure.title.toList.map fun title =>
    .text ⟨title, ((pageOf figure).middle.1, 5), titleSize, .middle, false⟩ blackInk
  let legend := (splitLegend (bodyOf figure) figure.legend).2
  let panels := (placements figure).flatMap fun (panel, cell) => panelElements cell panel
  { width := figure.width
    height := figure.height
    elements := .rect (0, 0) figure.width figure.height ⟨.white, 1.0⟩ :: title ++ legend ++ panels }

end SweepPlot.Drawing
