import SweepPlot.Table.Scanner
set_option autoImplicit false

namespace SweepPlot.Table

/-- All cells as text, or the index of the first that is none and the length of its valid start. -/
def cellTexts (cells : List Bytes) : Except (Nat × Nat) (List String) :=
  go 0 cells
where
  go (index : Nat) : List Bytes → Except (Nat × Nat) (List String)
    | [] => .ok []
    | cell :: cells =>
      match cell.text? with
      | none => .error (index, cell.validLength)
      | some text => (go (index + 1) cells).map (text :: ·)

end SweepPlot.Table
