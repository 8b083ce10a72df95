import SweepPlot.Bytes
set_option autoImplicit false

/-!
Comma-separated tables as bytes. A scanner reads one byte at a time and gives a row at every terminator:
a carriage return or a line feed, neither counted when no cell has begun. A quote is special only where a
cell starts; inside quotes two stand for one, and what follows the closing quote belongs to the cell.
The position of a row is where the scanner stood after the terminator before it.
-/

namespace SweepPlot.Table

def comma : UInt8 := 0x2C
def quote : UInt8 := 0x22
def lineFeed : UInt8 := 0x0A
def carriageReturn : UInt8 := 0x0D

/-- Lines count line feeds from one, bytes count from zero. -/
structure Position where
  line : Nat := 1
  byte : Nat := 0
  deriving DecidableEq, Repr

structure Row where
  opened : Position
  cells : List Bytes
  deriving DecidableEq, Repr

/-- Where the scanner stands: between rows, at the start of a cell, in a bare or a quoted one, or after a
quote that may close it. -/
inductive Spot where
  | between
  | cellStart
  | bare
  | quoted
  | quoteSeen
  deriving DecidableEq, Repr

/-- A cell and the cells before it are kept backwards. -/
structure Scanner where
  spot : Spot := .between
  opened : Position := {}
  here : Position := {}
  cell : Bytes := []
  cells : List Bytes := []
  deriving DecidableEq, Repr

def Position.after (p : Position) (b : UInt8) : Position :=
  ⟨if b = lineFeed then p.line + 1 else p.line, p.byte + 1⟩

def isTerminator (b : UInt8) : Bool :=
  b == lineFeed || b == carriageReturn

namespace Scanner

def row (s : Scanner) : Row :=
  ⟨s.opened, (s.cell.reverse :: s.cells).reverse⟩

def push (s : Scanner) (b : UInt8) (spot : Spot) : Scanner :=
  { s with spot := spot, here := s.here.after b, cell := b :: s.cell }

def skip (s : Scanner) (b : UInt8) (spot : Spot) : Scanner :=
  { s with spot := spot, here := s.here.after b }

def closeCell (s : Scanner) (b : UInt8) : Scanner :=
  { s with spot := .cellStart, here := s.here.after b, cell := [], cells := s.cell.reverse :: s.cells }

def closeRow (s : Scanner) (b : UInt8) : Scanner :=
  let here := s.here.after b
  { spot := .between, opened := here, here := here }

def plain (s : Scanner) (b : UInt8) : Scanner × Option Row :=
  if b = comma then (s.closeCell b, none)
  else if isTerminator b then (s.closeRow b, some s.row)
  else (s.push b .bare, none)

def step (s : Scanner) (b : UInt8) : Scanner × Option Row :=
  match s.spot with
  | .between =>
    if isTerminator b then (s.skip b .between, none)
    else if b = quote then (s.skip b .quoted, none)
    else s.plain b
  | .cellStart => if b = quote then (s.skip b .quoted, none) else s.plain b
  | .bare => s.plain b
  | .quoted => if b = quote then (s.skip b .quoteSeen, none) else (s.push b .quoted, none)
  | .quoteSeen => if b = quote then (s.push b .quoted, none) else s.plain b

def finish (s : Scanner) : List Row :=
  match s.spot with
  | .between => []
  | _ => [s.row]

def rows (s : Scanner) : Bytes → List Row
  | [] => s.finish
  | b :: bs =>
    match s.step b with
    | (next, some r) => r :: rows next bs
    | (next, none) => rows next bs

end Scanner

def rows : Bytes → List Row
  | 0xEF :: 0xBB :: 0xBF :: bs => ({ here := ⟨1, 3⟩ } : Scanner).rows bs
  | bs => ({} : Scanner).rows bs

end SweepPlot.Table
