import SweepPlot.Figure.Basic
import SweepPlot.Number.Printed
set_option autoImplicit false

namespace SweepPlot.Figure

/-- Large and small values are written with an exponent. -/
def valueText (v : Float) : String :=
  let size := v.abs
  let small := Number.below size 1e-2
  let large := !Number.below size 1e5
  if v != 0.0 && (large || small) then Number.scientific 3 v else Number.fixed 3 v

def pointsText (points : List Point) : String :=
  String.intercalate " " (points.map fun p => Number.positional p.xValue ++ ":" ++ valueText p.y)

def seriesLine (s : Series) : String :=
  "  " ++ Text.padRight 40 s.label ++ " " ++ Text.padRight 11 s.style.emphasis.token ++ " " ++
    pointsText s.points ++ "\n"

def barLine (b : Bar) : String :=
  "  " ++ Text.padRight 40 b.label ++ " " ++ valueText b.value ++ "\n"

def contentText : PanelContent → String
  | .lines series => String.join (series.map seriesLine)
  | .bars bars => String.join (bars.map barLine)

def panelText (panel : Panel) : String :=
  let title := panel.title.getD ""
  s!"\n[{panel.row},{panel.col}] {title}: {panel.yLabel} vs {panel.xLabel} " ++
    s!"({panel.scale.token} scale)" ++
    ((panel.sideLabel.map fun side => " " ++ side).getD "") ++ "\n" ++
    contentText panel.content ++
    (if panel.content.isEmpty then "  (no data)\n" else "") ++
    (if 0 < panel.dropped then s!"  ({panel.dropped} non-positive values not shown)\n" else "")

def legendText (legend : Legend) : String :=
  if legend.isEmpty then ""
  else "\nLegend: " ++ String.intercalate ", " (legend.map (·.label)) ++ "\n"

def summary (figure : Figure) : String :=
  let title := figure.title.getD "Figure"
  s!"{title} ({figure.rows}x{figure.cols} panels, " ++
    s!"{figure.width}x{figure.height} px)\n" ++
    String.join (figure.panels.map panelText) ++ legendText figure.legend

end SweepPlot.Figure
