set_option autoImplicit false

namespace SweepPlot

inductive Document where
  | null
  | flag (value : Bool)
  | int (value : Int)
  | text (value : String)
  | date
  | other
  | list (items : List Document)
  | table (entries : List (String × Document))
  deriving Inhabited

namespace Document

def texts (items : List String) : Document :=
  .list (items.map .text)

def ints (items : List Int) : Document :=
  .list (items.map .int)

def optText : Option String → Document
  | some s => .text s
  | none => .null

def isNull : Document → Bool
  | null => true
  | _ => false

end Document

end SweepPlot
