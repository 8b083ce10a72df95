import SweepPlot.Text
set_option autoImplicit false

/-!
What can be seen in a written SVG document whatever the chart library does with the plot: its size, its
labels but for those of the vertical ticks, its filled shapes and its coloured strokes. Coordinates and the
black strokes of axes and mesh are not looked at.
-/

namespace SweepPlot.Drawing

structure Markup where
  name : String
  attributes : List (String × String)
  content : String

inductive Shape where
  | circle (fill opacity radius : String)
  | rect (fill opacity : String)
  | polygon (fill opacity : String) (offsets : List (Int × Int))
  deriving DecidableEq, Repr

abbrev Stroke := String × String × String

structure Inspection where
  width : String
  height : String
  complete : Bool
  texts : List String
  shapes : List Shape
  strokes : List Stroke

namespace Markup

/-- Attributes of a tag, given the parts of the tag between double quotes and outside them in turn. -/
def attributesOf : List String → List (String × String)
  | name :: value :: rest =>
    let key := String.ofList ((Text.trimList name.toList).filter (· != '='))
    (key, value) :: attributesOf rest
  | _ => []

def ofPiece (piece : List Char) : Markup :=
  let inside := piece.takeWhile (· != '>')
  let name := inside.takeWhile (· != ' ')
  ⟨String.ofList name, attributesOf (Text.splitText '"' (String.ofList (inside.drop name.length))),
    String.ofList ((piece.dropWhile (· != '>')).drop 1)⟩

def ofText (s : String) : List Markup :=
  ((Text.split '<' s.toList).drop 1).map ofPiece

def get (m : Markup) (key : String) : String :=
  (m.attributes.lookup key).getD ""

/-- The content of a text element stands on lines of its own. -/
def label (m : Markup) : String :=
  let cs := m.content.toList
  let cs := if cs.head? = some '\n' then cs.drop 1 else cs
  String.ofList (if cs.getLast? = some '\n' then cs.dropLast else cs)

def integerOf (cs : List Char) : Int :=
  match cs with
  | '-' :: digits => -((String.ofList digits).toNat?.getD 0 : Int)
  | digits => (String.ofList digits).toNat?.getD 0

def pixelOf (s : String) : Int × Int :=
  match Text.split ',' s.toList with
  | [x, y] => (integerOf x, integerOf y)
  | _ => (0, 0)

def offsets (m : Markup) : List (Int × Int) :=
  let corners := ((Text.splitText ' ' (m.get "points")).filter (· != "")).map pixelOf
  match corners with
  | [] => []
  | first :: _ => corners.map fun p => (p.1 - first.1, p.2 - first.2)

def shape? (m : Markup) : Option Shape :=
  match m.name with
  | "circle" => some (.circle (m.get "fill") (m.get "opacity") (m.get "r"))
  | "rect" => some (.rect (m.get "fill") (m.get "opacity"))
  | "polygon" => some (.polygon (m.get "fill") (m.get "opacity") m.offsets)
  | _ => none

def text? (m : Markup) : Option String :=
  if m.name = "text" ∧ m.get "text-anchor" ≠ "end" then some m.label else none

def stroke? (m : Markup) : Option Stroke :=
  if m.name = "polyline" ∧ m.get "stroke" ≠ "#000000" then
    some (m.get "stroke", m.get "opacity", m.get "stroke-width")
  else none

end Markup

namespace Inspection

def sortStrokes (strokes : List Stroke) : List Stroke :=
  strokes.eraseDups.mergeSort fun a b =>
    decide (a.1 < b.1) || (a.1 == b.1 && (decide (a.2.1 < b.2.1) || (a.2.1 == b.2.1 && decide (a.2.2 ≤ b.2.2))))

def ofText (s : String) : Inspection :=
  let elements := Markup.ofText s
  let root := elements.headD ⟨"", [], ""⟩
  { width := root.get "width"
    height := root.get "height"
    complete := "</svg>\n".toList.isSuffixOf s.toList
    texts := elements.filterMap Markup.text?
    shapes := elements.filterMap Markup.shape?
    strokes := sortStrokes (elements.filterMap Markup.stroke?) }

end Inspection

def isDocument (s : String) : Bool :=
  Text.startsWith "<svg " s

end SweepPlot.Drawing
