import SweepPlot.FileChoice
import SweepPlot.Filter
set_option autoImplicit false

namespace SweepPlot

structure Request where
  roots : List String := []
  variants : List String := []
  sweep : Sweep := .threads
  layout : LayoutKind := .single
  mode : MergeMode := .flat
  metric : Metric := .throughput
  recursive : Bool := false
  filter : Filter := {}
  right : List String := []
  ticks : List Int := Sweep.defaultTicks
  perTrial : Bool := false
  choice : FileChoice := {}
  errorMode : ErrorMode := .collectErrors
  output : Option String := none
  showText : Bool := false
  summary : Option String := none
  deriving DecidableEq, Repr

namespace Request

def outputPath (r : Request) : String :=
  r.output.getD (r.layout.fileName r.sweep)

end Request

end SweepPlot
