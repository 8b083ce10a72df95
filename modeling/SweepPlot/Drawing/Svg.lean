import SweepPlot.Drawing.Chart
import SweepPlot.Number.Printed
set_option autoImplicit false

namespace SweepPlot.Drawing

def vocabulary : String := "http:" ++ "//www.w3.org/2000/svg"

def escaped (c : Char) : String :=
  match c with
  | '<' => "&lt;"
  | '>' => "&gt;"
  | '&' => "&amp;"
  | '"' => "&quot;"
  | '\'' => "&apos;"
  | other => other.toString

def escapedText (s : String) : String :=
  String.join (s.toList.map escaped)

def attributeText (name value : String) : String :=
  " " ++ name ++ "=\"" ++ value ++ "\""

def tag (name : String) (attributes : List (String × String)) (close : String) : String :=
  "<" ++ name ++ String.join (attributes.map fun (name, value) => attributeText name value) ++ close ++ "\n"

def colorText (c : Color) : String :=
  String.ofList (c.hex.toList.map Char.toUpper)

def pixelText (p : Pixel) : String :=
  toString p.1 ++ "," ++ toString p.2

def pixelsText (ps : List Pixel) : String :=
  String.intercalate " " (ps.map pixelText)

def fill (ink : Ink) : List (String × String) :=
  [("opacity", Number.positional ink.opacity), ("fill", colorText ink.color)]

def Anchor.text : Anchor → String
  | .start => "start"
  | .middle => "middle"
  | .last => "end"

def turnText (caption : Caption) : List (String × String) :=
  if caption.turned then
    [("transform", "rotate(90, " ++ toString caption.position.1 ++ ", " ++ toString caption.position.2 ++ ")")]
  else []

def captionText (caption : Caption) (ink : Ink) : String :=
  tag "text"
    ([("x", toString caption.position.1), ("y", toString caption.position.2), ("dy", "0.76em"),
      ("text-anchor", caption.anchor.text), ("font-family", "sans-serif"),
      ("font-size", toString caption.size)] ++ fill ink ++ turnText caption) ">" ++
    escapedText caption.content ++ "\n</text>\n"

def elementText : Element → String
  | .text caption ink => captionText caption ink
  | .circle center radius ink =>
    tag "circle" ([("cx", toString center.1), ("cy", toString center.2), ("r", toString radius)] ++ fill ink ++
      [("stroke", "none")]) "/>"
  | .rect corner width height ink =>
    tag "rect" ([("x", toString corner.1), ("y", toString corner.2), ("width", toString width),
      ("height", toString height)] ++ fill ink ++ [("stroke", "none")]) "/>"
  | .polygon corners ink => tag "polygon" (fill ink ++ [("points", pixelsText corners)]) "/>"
  | .polyline points ink width =>
    tag "polyline" [("fill", "none"), ("opacity", Number.positional ink.opacity),
      ("stroke", colorText ink.color), ("stroke-width", toString width), ("points", pixelsText points)] "/>"

def sceneText (scene : Scene) : String :=
  let width := toString scene.width
  let height := toString scene.height
  tag "svg" [("width", width), ("height", height), ("viewBox", "0 0 " ++ width ++ " " ++ height),
    ("xmlns", vocabulary)] ">" ++
    String.join (scene.elements.map elementText) ++ "</svg>\n"

def svg (figure : Figure) : String :=
  sceneText (sceneOf figure)

end SweepPlot.Drawing
