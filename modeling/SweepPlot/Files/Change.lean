import SweepPlot.Files.Resolve
set_option autoImplicit false

namespace SweepPlot.FileSystem

def withRoot (fs : FileSystem) (root : Node) : FileSystem :=
  { fs with root := root }

def putAt (fs : FileSystem) (location : Location) (new : Node) : FileSystem :=
  fs.withRoot (Node.put new location fs.root)

def removeAt (fs : FileSystem) (location : Location) : FileSystem :=
  fs.withRoot (Node.remove location fs.root)

/-- How a path ends: the steps before its last name, the last name if it is one, and whether a slash follows. -/
structure Ending where
  front : List Bytes
  name : Option Bytes
  slash : Bool

def dropEmpty (steps : List Bytes) : List Bytes :=
  steps.dropWhile List.isEmpty

def endingOf (path : Bytes) : Ending :=
  let back := (Path.steps path).reverse
  match dropEmpty back with
  | [] => ⟨[], none, true⟩
  | last :: front =>
    ⟨front.reverse, if Path.isName last then some last else none, back.head? == some []⟩

def directoryOf (fs : FileSystem) (path : Bytes) (front : List Bytes) : Except IoCause Location :=
  match walk fs.root false linkLimit (startOf fs.workDir path) (front ++ [[]]) with
  | .error cause => .error cause
  | .ok (.free ..) => .error .notFound
  | .ok (.node location) => .ok location

def target (fs : FileSystem) (path : Bytes) (noName : IoCause) :
    Except IoCause (Location × Bytes × Option Node × Bool) :=
  match checkPath path with
  | .error cause => .error cause
  | .ok () =>
    let ending := endingOf path
    match fs.directoryOf path ending.front with
    | .error cause => .error cause
    | .ok directory =>
      match ending.name with
      | none => .error noName
      | some name =>
        if nameLimit < name.length then .error .nameTooLong
        else .ok (directory, name, (Node.at? directory fs.root).bind (Node.child? · name), ending.slash)

def makeDir (fs : FileSystem) (path : Bytes) : Except IoCause FileSystem :=
  match fs.target path .alreadyExists with
  | .error cause => .error cause
  | .ok (_, _, some _, _) => .error .alreadyExists
  | .ok (directory, name, none, _) => .ok (fs.putAt (directory ++ [name]) .empty)

/-- What fails of a replacement by way of a temporary file for reasons that the tree does not show, such as missing
permissions or a full disk: a directory that is to be made, at the first or the second attempt, or what is done with
the temporary file. -/
structure ReplaceFaults where
  making : Bytes → Bool → Option IoCause := fun _ _ => none
  creating : Option IoCause := none
  filling : Option IoCause := none
  syncing : Option IoCause := none
  moving : Option IoCause := none

def orFault {α : Type} (fault : Option IoCause) (given : Except IoCause α) : Except IoCause α :=
  match fault with
  | some cause => .error cause
  | none => given

/-- Makes the first of the given paths, which run from longest to shortest, and before it the others if it
cannot be made without them. -/
def makeLineage (fs : FileSystem) (making : Bytes → Bool → Option IoCause) :
    List Bytes → FileSystem × Except IoCause Unit
  | [] => (fs, .ok ())
  | path :: parents =>
    match orFault (making path false) (fs.makeDir path) with
    | .ok made => (made, .ok ())
    | .error .notFound =>
      match fs.makeLineage making parents with
      | (fs, .error cause) => (fs, .error cause)
      | (fs, .ok ()) =>
        match orFault (making path true) (fs.makeDir path) with
        | .ok made => (made, .ok ())
        | .error cause => (fs, if fs.isDir path then .ok () else .error cause)
    | .error cause => (fs, if fs.isDir path then .ok () else .error cause)

def makeDirs (fs : FileSystem) (making : Bytes → Bool → Option IoCause) (path : Bytes) :
    FileSystem × Except IoCause Unit :=
  fs.makeLineage making (Path.lineage path)

/-- Where writing to a path goes, through links, and what is there. -/
def writable (fs : FileSystem) (path : Bytes) : Except IoCause (Location × Bytes) :=
  match fs.place true path with
  | .error cause => .error cause
  | .ok (.free directory name) => .ok (directory ++ [name], [])
  | .ok (.node location) =>
    match Node.at? location fs.root with
    | some (.file content) => .ok (location, content)
    | some (.locked false) => .error .denied
    | _ => .error .isDirectory

def append (fs : FileSystem) (path : Bytes) (bytes : Bytes) : Except IoCause FileSystem :=
  (fs.writable path).map fun found => fs.putAt found.1 (.file (found.2 ++ bytes))

def overwrite (fs : FileSystem) (path : Bytes) (bytes : Bytes) : Except IoCause FileSystem :=
  (fs.writable path).map fun found => fs.putAt found.1 (.file bytes)

def freshName (entries : List (Bytes × Node)) : Bytes :=
  let names := (List.range (entries.length + 1)).map fun i => Bytes.ofText (".tmp" ++ toString i)
  (names.find? fun name => (entries.lookup name).isNone).getD ".tmp"

/-- Moves a file to a path; what the path named before is replaced unless it is a directory. -/
def moveFile (fs : FileSystem) (source : Location) (path : Bytes) : Except IoCause FileSystem :=
  match (fs.target path .deviceBusy).mapError fun
    | .nulInPath => .invalidArgument
    | cause => cause with
  | .error cause => .error cause
  | .ok (directory, name, old, slash) =>
    if slash then .error .notDirectory
    else if (old.map Node.isDirectory).getD false then .error .isDirectory
    else
      match Node.at? source fs.root with
      | none => .error .notFound
      | some file =>
        if directory ++ [name] = source then .ok fs
        else .ok ((fs.putAt (directory ++ [name]) file).removeAt source)

def directoryText (path : Bytes) : Bytes :=
  match Path.parent? path with
  | some up => if up = [] then Path.here else up
  | none => Path.here

/-- The path of a temporary file as it is given in failures, which is absolute. -/
def temporaryPath (fs : FileSystem) (up name : Bytes) : Bytes :=
  Path.join (if Path.isAbsolute up then up else Path.join (Path.joinAll [Path.slash] fs.workDir) up) name

/-- The file at the path has the old content or the new one, never a part of it. -/
def replaceFile (fs : FileSystem) (faults : ReplaceFaults) (path : Bytes) (bytes : Bytes) :
    FileSystem × Except Failure Unit :=
  let up := directoryText path
  match fs.makeDirs faults.making up with
  | (fs, .error cause) => (fs, .error (.io up cause))
  | (fs, .ok ()) =>
    match orFault faults.creating (fs.directoryOf up (Path.steps up)) with
    | .error cause => (fs, .error (.io up cause))
    | .ok directory =>
      let name := freshName ((Node.at? directory fs.root).getD .empty).entries
      let source := directory ++ [name]
      let filled := fs.putAt source (.file bytes)
      match faults.filling.or faults.syncing with
      | some cause => (filled.removeAt source, .error (.io (fs.temporaryPath up name) cause))
      | none =>
        match orFault faults.moving (filled.moveFile source path) with
        | .ok moved => (moved, .ok ())
        | .error cause => (filled.removeAt source, .error (.io path cause))

end SweepPlot.FileSystem
