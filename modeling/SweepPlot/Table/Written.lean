import SweepPlot.Table.Scanner
set_option autoImplicit false

namespace SweepPlot.Table

def needsQuotes (cell : Bytes) : Bool :=
  cell.any fun b => b == comma || b == quote || isTerminator b

def doubled : Bytes → Bytes
  | [] => []
  | b :: bs => if b = quote then quote :: quote :: doubled bs else b :: doubled bs

def quotedCell (cell : Bytes) : Bytes :=
  quote :: doubled cell ++ [quote]

def writeCell (cell : Bytes) : Bytes :=
  if needsQuotes cell then quotedCell cell else cell

def writeCells : List Bytes → Bytes
  | [] => []
  | [cell] => writeCell cell
  | cell :: cells => writeCell cell ++ comma :: writeCells cells

def writeRow (cells : List Bytes) : Bytes :=
  (if cells = [[]] then quotedCell [] else writeCells cells) ++ [lineFeed]

def writeRows (table : List (List Bytes)) : Bytes :=
  table.flatMap writeRow

end SweepPlot.Table
