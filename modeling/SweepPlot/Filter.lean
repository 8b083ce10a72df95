import SweepPlot.Style.Registry
set_option autoImplicit false

/-!
Which queue types are drawn and how prominently. Ignoring a type beats allowing it, an empty allow list
allows all, a panel may narrow further, and a highlight list mutes what it does not name.
-/

namespace SweepPlot

structure Filter where
  allow : List String := []
  highlight : List String := []
  ignore : List String := []
  deriving DecidableEq, Repr

inductive Selection where
  | all
  | only (queues : List String)
  | excluding (queues : List String)
  deriving DecidableEq, Repr

namespace Filter

def admits (f : Filter) (queue : String) : Bool :=
  !f.ignore.contains queue && (f.allow.isEmpty || f.allow.contains queue)

def highlights (f : Filter) : Bool :=
  !f.highlight.isEmpty

def emphasis (f : Filter) (queue : String) (enabled : Bool) : Emphasis :=
  if enabled && f.highlights then
    if f.highlight.contains queue then .highlighted else .muted
  else .normal

end Filter

namespace Selection

def admits (s : Selection) (queue : String) : Bool :=
  match s with
  | all => true
  | only queues => queues.contains queue
  | excluding queues => !queues.contains queue

end Selection

end SweepPlot
