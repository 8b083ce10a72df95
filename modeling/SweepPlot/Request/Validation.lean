import SweepPlot.Distinct
import SweepPlot.Request.Basic
set_option autoImplicit false

namespace SweepPlot.Request

def checkMode (r : Request) : Except RequestFault Unit :=
  match r.mode with
  | .flat => .ok ()
  | .subfolder => if r.roots.length = 1 then .ok () else .error (.subfolderRoots r.roots.length)
  | .variant =>
    if r.variants.length ≠ r.roots.length then .error (.labelCount r.roots.length r.variants.length)
    else if r.variants.any Text.isBlankText then .error .blankLabel
    else
      match firstRepeat? (r.variants.map Text.trim) with
      | some label => .error (.repeatedLabel label)
      | none => .ok ()

def checkLayout (r : Request) : Except RequestFault Unit :=
  if (r.layout = .paired ∨ r.layout = .sixPanel) ∧ r.right = [] then .error (.rightMissing r.layout)
  else if r.layout = .sixPanel ∧ r.mode ≠ .variant then .error .sixPanelMode
  else .ok ()

def isRising : List Int → Bool
  | a :: b :: rest => decide (a < b) && isRising (b :: rest)
  | _ => true

def checkTicks (r : Request) : Except RequestFault Unit :=
  if r.ticks = [] then .error .noTicks
  else if isRising r.ticks then .ok ()
  else .error (.ticksNotIncreasing r.ticks)

def checkOutput (r : Request) : Except RequestFault Unit :=
  match r.output with
  | none => .ok ()
  | some path => if (Path.fileName? path).isSome then .ok () else .error (.outputNotFile path)

def validate (r : Request) : Except RequestFault Unit := do
  if r.roots = [] then throw .noRoots
  r.checkMode
  r.checkLayout
  r.checkTicks
  (r.choice.validate).mapError .choice
  r.checkOutput

end SweepPlot.Request
