import SweepPlot.Failure
import SweepPlot.Files.Path
import SweepPlot.Files.Tree
set_option autoImplicit false

/-!
Where a path leads in a tree of files. A walk takes one step at a time from a directory, goes through at
most forty links, also at the very end, and ends at a node or at a free name in a directory. A walk to a
file that is to be written takes a slash after the last name, of the path or of a link, for a directory.
-/

namespace SweepPlot

structure FileSystem where
  root : Node
  workDir : Location := []

inductive Place where
  | node (location : Location)
  | free (directory : Location) (name : Bytes)
  deriving DecidableEq, Repr

abbrev Walk := Location → List Bytes → Except IoCause Place

namespace FileSystem

def startOf (here : Location) (path : Bytes) : Location :=
  if Path.isAbsolute path then [] else here

def nameLimit : Nat := 255

/-- Paths are shorter than this, in bytes. -/
def pathLimit : Nat := 4096

def onlySlashes (rest : List Bytes) : Bool :=
  !rest.isEmpty && rest.all (·.isEmpty)

/-- The walk along given steps; a link hands its target and the steps left to the next walk. -/
def walkSteps (root : Node) (toWrite : Bool) (next : Walk) : Walk
  | here, [] => .ok (.node here)
  | here, step :: rest =>
    match Node.at? here root with
    | none => .error .notFound
    | some (.locked true) => .error .denied
    | some (.dir entries) =>
      if step = [] ∨ step = Path.here then walkSteps root toWrite next here rest
      else if step = Path.up then walkSteps root toWrite next here.dropLast rest
      else if toWrite && onlySlashes rest then .error .isDirectory
      else if nameLimit < step.length then .error .nameTooLong
      else
        match entries.lookup step with
        | none => if rest = [] then .ok (.free here step) else .error .notFound
        | some (.link target) => next (startOf here target) (Path.steps target ++ rest)
        | some _ => walkSteps root toWrite next (here ++ [step]) rest
    | some _ => .error .notDirectory
termination_by structural _ steps => steps

def walk (root : Node) (toWrite : Bool) : Nat → Walk
  | 0 => walkSteps root toWrite fun _ _ => .error .linkLoop
  | links + 1 => walkSteps root toWrite (walk root toWrite links)

def linkLimit : Nat := 40

/-- What is wrong with the bytes of a path, wherever it leads. -/
def checkPath (path : Bytes) : Except IoCause Unit :=
  if path = [] then .error .notFound
  else if path.contains 0 then .error .nulInPath
  else if pathLimit ≤ path.length then .error .nameTooLong
  else .ok ()

def place (fs : FileSystem) (toWrite : Bool) (path : Bytes) : Except IoCause Place :=
  match checkPath path with
  | .error cause => .error cause
  | .ok () => walk fs.root toWrite linkLimit (startOf fs.workDir path) (Path.steps path)

def lookup (fs : FileSystem) (path : Bytes) : Except IoCause Node :=
  match fs.place false path with
  | .error cause => .error cause
  | .ok (.free ..) => .error .notFound
  | .ok (.node location) =>
    match Node.at? location fs.root with
    | some node => .ok node
    | none => .error .notFound

def isThere (fs : FileSystem) (path : Bytes) : Bool :=
  (fs.lookup path).isOk

def isDir (fs : FileSystem) (path : Bytes) : Bool :=
  match fs.lookup path with
  | .ok node => node.isDirectory
  | .error _ => false

/-- Opening a file, and then what reading it gives; a directory can be opened but not read. -/
def openFile (fs : FileSystem) (path : Bytes) : Except IoCause (Except IoCause Bytes) :=
  match fs.lookup path with
  | .error cause => .error cause
  | .ok (.file content) => .ok (.ok content)
  | .ok (.locked _) => .error .denied
  | .ok _ => .ok (.error .isDirectory)

def readFile (fs : FileSystem) (path : Bytes) : Except IoCause Bytes :=
  match fs.openFile path with
  | .error cause => .error cause
  | .ok read => read

def readText (fs : FileSystem) (path : Bytes) : Except IoCause String :=
  match fs.readFile path with
  | .error cause => .error cause
  | .ok content =>
    match content.text? with
    | some text => .ok text
    | none => .error .notText

def readDir (fs : FileSystem) (path : Bytes) : Except IoCause (List (Bytes × Node)) :=
  match fs.lookup path with
  | .error cause => .error cause
  | .ok (.dir entries) => .ok entries
  | .ok (.locked true) => .error .denied
  | .ok _ => .error .notDirectory

end FileSystem

end SweepPlot
