import SweepPlot.Failure
import SweepPlot.Files.Path
set_option autoImplicit false

namespace SweepPlot

/-- Excluded extensions are compared without their leading dots and without case. -/
structure FileChoice where
  exclude : List String := ["txt"]
  start : Option String := none
  deriving DecidableEq, Repr

namespace FileChoice

def everything : FileChoice := { exclude := [] }

def bareExtension (excluded : String) : String :=
  String.ofList (excluded.toList.dropWhile fun c => c == '.')

def excludes (choice : FileChoice) (extension : String) : Bool :=
  choice.exclude.any fun excluded => Text.lower (bareExtension excluded) == Text.lower extension

def acceptsName (choice : FileChoice) (name : String) : Bool :=
  !Path.isHidden name &&
    ((choice.start.map fun start => Text.startsWith start name).getD true) &&
    !((Path.nameExtension? name).map choice.excludes).getD false

def accepts (choice : FileChoice) (path : Bytes) : Bool :=
  (((Path.fileName? path).bind Bytes.text?).map choice.acceptsName).getD false

def validate (choice : FileChoice) : Except ChoiceFault Unit :=
  match choice.start with
  | none => .ok ()
  | some start =>
    if start = "" then .error .emptyStart
    else if start.toList.contains '/' then .error (.separatorInStart start)
    else .ok ()

end FileChoice

end SweepPlot
