import SweepPlot.Bytes
set_option autoImplicit false

namespace SweepPlot

inductive Node where
  | file (content : Bytes)
  | link (target : Bytes)
  | locked (directory : Bool)
  | dir (entries : List (Bytes × Node))

abbrev Location := List Bytes

namespace Node

def empty : Node := .dir []

def isDirectory : Node → Bool
  | dir _ => true
  | locked directory => directory
  | _ => false

def isFile : Node → Bool
  | file _ => true
  | locked directory => !directory
  | _ => false

def entries : Node → List (Bytes × Node)
  | dir entries => entries
  | _ => []

def child? (node : Node) (name : Bytes) : Option Node :=
  node.entries.lookup name

def at? : Location → Node → Option Node
  | [], node => some node
  | name :: rest, node => (node.child? name).bind (at? rest)

/-- The entry of that name is replaced where it stands, or added at the end. -/
def setEntry (name : Bytes) (child : Node) : List (Bytes × Node) → List (Bytes × Node)
  | [] => [(name, child)]
  | entry :: rest =>
    if entry.1 = name then (name, child) :: rest else entry :: setEntry name child rest

/-- Puts a node at a location whose directories exist. -/
def put (new : Node) : Location → Node → Node
  | [], _ => new
  | name :: rest, node =>
    match node with
    | dir entries =>
      match entries.lookup name with
      | some child => dir (setEntry name (put new rest child) entries)
      | none => if rest = [] then dir (setEntry name new entries) else dir entries
    | other => other

def remove : Location → Node → Node
  | [], node => node
  | name :: rest, node =>
    match node with
    | dir entries =>
      if rest = [] then dir (entries.filter fun entry => entry.1 != name)
      else
        match entries.lookup name with
        | some child => dir (setEntry name (remove rest child) entries)
        | none => dir entries
    | other => other

def files : Node → List (Location × Bytes)
  | file content => [([], content)]
  | dir entries => entryFiles entries
  | _ => []
termination_by structural node => node
where
  entryFiles : List (Bytes × Node) → List (Location × Bytes)
    | [] => []
    | entry :: rest => named entry ++ entryFiles rest
  termination_by structural entries => entries
  named : Bytes × Node → List (Location × Bytes)
    | (name, node) => (files node).map fun found => (name :: found.1, found.2)
  termination_by structural entry => entry

end Node

end SweepPlot
