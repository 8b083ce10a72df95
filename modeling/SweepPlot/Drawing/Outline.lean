import SweepPlot.Number.Exact
import SweepPlot.Style.Palette
set_option autoImplicit false

namespace SweepPlot.Drawing

abbrev Offset := Int × Int

def fullTurn : Float := 6.283185307179586
def halfTurn : Float := 3.141592653589793
def upward : Float := -1.5707963267948966

def nearestPixel (x : Float) : Int :=
  Number.clampInt32 (Number.roundAway x)

def opposite (r : Int) : Int :=
  Number.wrapInt32 (-r)

def regular (corners : Nat) (radius start : Float) : List Offset :=
  (List.range corners).map fun k =>
    let angle := start + Float.ofNat k * fullTurn / Float.ofNat corners
    (nearestPixel (radius * angle.cos), nearestPixel (radius * angle.sin))

def alternate : List Offset → List Offset → List Offset
  | a :: as, b :: bs => a :: b :: alternate as bs
  | _, _ => []

def outline (marker : Marker) (r : Int) : List Offset :=
  let radius := Float.ofInt r
  let back := opposite r
  match marker with
  | .diamond => [(0, back), (r, 0), (0, r), (back, 0)]
  | .triangleUp => [(0, back), (r, r), (back, r)]
  | .triangleDown => [(0, r), (r, back), (back, back)]
  | .triangleLeft => [(back, 0), (r, back), (r, r)]
  | .triangleRight => [(r, 0), (back, back), (back, r)]
  | .pentagon => regular 5 (radius + 0.5) upward
  | .hexagon => regular 6 (radius + 0.5) upward
  | .hexagonFlat => regular 6 (radius + 0.5) 0.0
  | .star =>
    alternate (regular 5 (radius + 1.5) upward)
      (regular 5 ((radius + 1.5) * 0.45) (upward + halfTurn / 5.0))
  | .square => [(back, back), (r, back), (r, r), (back, r)]
  | .circle | .cross | .plus => regular 12 radius 0.0

def strokes (marker : Marker) (r : Int) : List (List Offset) :=
  let back := opposite r
  match marker with
  | .plus => [[(back, 0), (r, 0)], [(0, back), (0, r)]]
  | _ => [[(back, back), (r, r)], [(back, r), (r, back)]]

end SweepPlot.Drawing
