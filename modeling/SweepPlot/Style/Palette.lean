import SweepPlot.Vocabulary
set_option autoImplicit false

namespace SweepPlot

structure Color where
  red : UInt8
  green : UInt8
  blue : UInt8
  deriving DecidableEq, Repr

inductive LineStyle where
  | solid
  | dashed
  | dashDot
  | dotted
  deriving DecidableEq, Repr

inductive Marker where
  | circle
  | square
  | diamond
  | triangleUp
  | triangleDown
  | triangleLeft
  | triangleRight
  | pentagon
  | star
  | hexagon
  | hexagonFlat
  | cross
  | plus
  deriving DecidableEq, Repr

namespace Color

def gray : Color := ⟨128, 128, 128⟩
def orange : Color := ⟨255, 165, 0⟩
def pureRed : Color := ⟨255, 0, 0⟩
def pureBlue : Color := ⟨0, 0, 255⟩
def black : Color := ⟨0, 0, 0⟩
def white : Color := ⟨255, 255, 255⟩

def hexByte (b : UInt8) : List Char :=
  [Text.hexDigit (b.toNat / 16), Text.hexDigit (b.toNat % 16)]

def hex (c : Color) : String :=
  String.ofList ('#' :: hexByte c.red ++ hexByte c.green ++ hexByte c.blue)

def byte? (high low : Char) : Option UInt8 := do
  let h ← Text.hexValue? high
  let l ← Text.hexValue? low
  return UInt8.ofNat (16 * h + l)

def ofHex? : List Char → Option Color
  | ['#', r1, r2, g1, g2, b1, b2] => do
    let r ← byte? r1 r2
    let g ← byte? g1 g2
    let b ← byte? b1 b2
    return ⟨r, g, b⟩
  | _ => none

def ofName? : String → Option Color
  | "gray" | "grey" => some gray
  | "orange" => some orange
  | "red" => some pureRed
  | "blue" => some pureBlue
  | "black" => some black
  | _ => none

def ofWord (s : String) : Except WordFault Color :=
  let plain := Text.trim s
  match (ofName? (Text.lower plain)).or (ofHex? plain.toList) with
  | some color => .ok color
  | none => .error (.color s)

def palette : List Color :=
  [⟨0x1f, 0x77, 0xb4⟩, ⟨0xff, 0x7f, 0x0e⟩, ⟨0x2c, 0xa0, 0x2c⟩,
   ⟨0xd6, 0x27, 0x28⟩, ⟨0x94, 0x67, 0xbd⟩, ⟨0x8c, 0x56, 0x4b⟩,
   ⟨0xe3, 0x77, 0xc2⟩, ⟨0x7f, 0x7f, 0x7f⟩, ⟨0xbc, 0xbd, 0x22⟩,
   ⟨0x17, 0xbe, 0xcf⟩, ⟨0x1f, 0x77, 0xb4⟩, ⟨0xae, 0xc7, 0xe8⟩,
   ⟨0xff, 0x7f, 0x0e⟩, ⟨0xff, 0xbb, 0x78⟩, ⟨0x2c, 0xa0, 0x2c⟩,
   ⟨0x98, 0xdf, 0x8a⟩, ⟨0xd6, 0x27, 0x28⟩, ⟨0xff, 0x98, 0x96⟩,
   ⟨0x94, 0x67, 0xbd⟩, ⟨0xc5, 0xb0, 0xd5⟩, ⟨0x8c, 0x56, 0x4b⟩,
   ⟨0xc4, 0x9c, 0x94⟩, ⟨0xe3, 0x77, 0xc2⟩, ⟨0xf7, 0xb6, 0xd2⟩,
   ⟨0x7f, 0x7f, 0x7f⟩, ⟨0xc7, 0xc7, 0xc7⟩, ⟨0xbc, 0xbd, 0x22⟩,
   ⟨0xdb, 0xdb, 0x8d⟩, ⟨0x17, 0xbe, 0xcf⟩, ⟨0x9e, 0xda, 0xe5⟩]

end Color

namespace LineStyle

def all : List LineStyle := [solid, dashed, dashDot, dotted]

def name : LineStyle → String
  | solid => "solid"
  | dashed => "dashed"
  | dashDot => "dash-dot"
  | dotted => "dotted"

def token : LineStyle → String
  | solid => "-"
  | dashed => "--"
  | dashDot => "-."
  | dotted => ":"

/-- Lengths in pixels, alternately drawn and skipped; a solid line has none. -/
def dashes : LineStyle → List Float
  | solid => []
  | dashed => [6.0, 4.0]
  | dashDot => [8.0, 3.0, 2.0, 3.0]
  | dotted => [2.0, 3.0]

end LineStyle

namespace Marker

def all : List Marker :=
  [circle, square, diamond, triangleUp, triangleDown, triangleLeft, triangleRight, pentagon, star,
   hexagon, hexagonFlat, cross, plus]

def name : Marker → String
  | circle => "circle"
  | square => "square"
  | diamond => "diamond"
  | triangleUp => "triangle-up"
  | triangleDown => "triangle-down"
  | triangleLeft => "triangle-left"
  | triangleRight => "triangle-right"
  | pentagon => "pentagon"
  | star => "star"
  | hexagon => "hexagon"
  | hexagonFlat => "hexagon-flat"
  | cross => "cross"
  | plus => "plus"

def token : Marker → String
  | circle => "o"
  | square => "s"
  | diamond => "D"
  | triangleUp => "^"
  | triangleDown => "v"
  | triangleLeft => "<"
  | triangleRight => ">"
  | pentagon => "p"
  | star => "*"
  | hexagon => "h"
  | hexagonFlat => "H"
  | cross => "x"
  | plus => "+"

/-- Crosses are drawn as strokes, all other markers as filled outlines. -/
def isStroked (m : Marker) : Bool :=
  m == cross || m == plus

end Marker

end SweepPlot
