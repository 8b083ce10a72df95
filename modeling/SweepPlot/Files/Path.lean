import SweepPlot.Bytes
import SweepPlot.Text
set_option autoImplicit false

namespace SweepPlot.Path

def slash : UInt8 := 0x2F

def dot : UInt8 := 0x2E

def here : Bytes := [dot]

def up : Bytes := [dot, dot]

def steps (path : Bytes) : List Bytes :=
  Text.split slash path

def isAbsolute (path : Bytes) : Bool :=
  path.head? == some slash

def isName (step : Bytes) : Bool :=
  step != [] && step != here && step != up

def join (path name : Bytes) : Bytes :=
  if path = [] ∨ path.getLast? = some slash then path ++ name else path ++ slash :: name

def joinAll (path : Bytes) (names : List Bytes) : Bytes :=
  names.foldl join path

/-- The last step, unless it leads upwards or there is none. -/
def fileName? (path : Bytes) : Option Bytes :=
  match ((steps path).filter fun step => step != [] && step != here).getLast? with
  | some step => if isName step then some step else none
  | none => none

/-- What follows the last dot of a name that does not just start with it. -/
def nameExtension? (name : String) : Option String :=
  match (Text.split '.' name.toList).reverse with
  | last :: first :: rest =>
    if first = [] ∧ rest = [] then none else some (String.ofList last)
  | _ => none

def extension? (path : Bytes) : Option String :=
  ((fileName? path).bind Bytes.text?).bind nameExtension?

/-- Drops slashes and single dots at the end of a path that is written backwards; the root keeps its slash. -/
def dropEnd : Bytes → Bytes
  | a :: b :: back =>
    if a = slash ∨ a = dot ∧ b = slash then dropEnd (b :: back) else a :: b :: back
  | back => back

def parent? (path : Bytes) : Option Bytes :=
  let back := dropEnd path.reverse
  if back = [] ∨ back = [slash] then none
  else some (dropEnd (back.dropWhile fun b => b != slash)).reverse

/-- The path and its parents, at most n of them, longest first and without the empty one. -/
def upwards : Nat → Bytes → List Bytes
  | 0, _ => []
  | n + 1, path =>
    if path = [] then []
    else path :: match parent? path with
      | none => []
      | some up => upwards n up

def lineage (path : Bytes) : List Bytes :=
  upwards path.length path

def isHidden (name : String) : Bool :=
  Text.startsWith "." name

/-- Names that a walk goes into: text that does not start with a dot. -/
def isVisible (name : Bytes) : Bool :=
  (name.text?.map fun text => !isHidden text).getD false

end SweepPlot.Path
