import SweepPlot.Distinct
import SweepPlot.Schema
import SweepPlot.Style.Registry
set_option autoImplicit false

namespace SweepPlot

structure Point where
  x : Int
  y : Float

structure Series where
  queue : String
  subfolder : Option String
  variant : Option String
  label : String
  style : DrawStyle
  points : List Point

structure Bar where
  queue : String
  label : String
  value : Float
  style : DrawStyle

inductive PanelContent where
  | lines (series : List Series)
  | bars (bars : List Bar)

structure Range where
  low : Float
  high : Float

structure Panel where
  row : Nat
  col : Nat
  title : Option String
  xLabel : String
  yLabel : String
  scale : Scale
  ticks : List Int
  range : Option Range
  sideLabel : Option String
  content : PanelContent
  dropped : Nat

structure LegendEntry where
  label : String
  style : DrawStyle

abbrev Legend := List LegendEntry

structure Figure where
  title : Option String
  rows : Nat
  cols : Nat
  width : Nat
  height : Nat
  panels : List Panel
  legend : Legend

namespace Point

def xValue (p : Point) : Float :=
  Float.ofInt p.x

end Point

namespace Range

def single (v : Float) : Range := ⟨v, v⟩

def union (a b : Range) : Range :=
  ⟨Number.least a.low b.low, Number.greatest a.high b.high⟩

def hull : List Range → Option Range
  | [] => none
  | r :: rs => some (rs.foldl union r)

end Range

namespace PanelContent

def isEmpty : PanelContent → Bool
  | .lines series => series.isEmpty
  | .bars list => list.isEmpty

def series : PanelContent → List Series
  | .lines series => series
  | .bars _ => []

def barList : PanelContent → List Bar
  | .lines _ => []
  | .bars list => list

def values : PanelContent → List Float
  | .lines series => series.flatMap fun s => s.points.map (·.y)
  | .bars list => list.map (·.value)

def range (content : PanelContent) : Option Range :=
  Range.hull (content.values.map Range.single)

def kind : PanelContent → String
  | .lines _ => "lines"
  | .bars _ => "bars"

end PanelContent

namespace Legend

def holds (legend : Legend) (label : String) : Bool :=
  legend.any fun entry => entry.label == label

def insert (legend : Legend) (label : String) (style : DrawStyle) : Legend :=
  if legend.holds label then legend else legend ++ [⟨label, style⟩]

def ofSeries (series : List Series) : Legend :=
  series.foldl (fun legend s => legend.insert s.label s.style) []

end Legend

namespace Figure

def allSeries (figure : Figure) : List Series :=
  figure.panels.flatMap (·.content.series)

def seriesFor (figure : Figure) (queue : String) : List Series :=
  figure.allSeries.filter fun s => s.queue == queue

def queueTypes (figure : Figure) : List String :=
  distinct (figure.allSeries.map (·.queue) ++
    figure.panels.flatMap fun panel => panel.content.barList.map (·.queue))

def isEmpty (figure : Figure) : Bool :=
  figure.panels.all (·.content.isEmpty)

end Figure

end SweepPlot
