import SweepPlot.Files.Resolve
set_option autoImplicit false

/-!
What lies below a directory. Entries come in name order, the content of a directory at the place of the
directory; names that start with a dot or are no text are passed over with all they hold, and links are not
followed. Subdirectories, in contrast, may be reached through a link and go by what is displayed of their names.
-/

namespace SweepPlot

/-- A file met below a directory, or why a directory there cannot be listed, by the names that lead to it. -/
structure Finding where
  steps : Location
  fault : Option IoCause
  deriving DecidableEq, Repr

structure Subfolder where
  name : String
  path : Bytes
  deriving DecidableEq, Repr

def Subfolder.key (sub : Subfolder) : Bytes :=
  Bytes.ofText sub.name

def byName {α : Type} (entries : List (Bytes × α)) : List (Bytes × α) :=
  entries.mergeSort fun a b => decide (a.1 ≤ b.1)

namespace Node

/-- Findings in a directory at a path, in those below it only if the walk is deep. -/
def findings (deep : Bool) (path : Bytes) : Node → List Finding
  | dir entries =>
    if FileSystem.pathLimit ≤ path.length then [⟨[], some .nameTooLong⟩]
    else (byName (entryFindings deep path entries)).flatMap (·.2)
  | locked true => [⟨[], some (if FileSystem.pathLimit ≤ path.length then .nameTooLong else .denied)⟩]
  | _ => []
termination_by structural node => node
where
  entryFindings (deep : Bool) (path : Bytes) : List (Bytes × Node) → List (Bytes × List Finding)
    | [] => []
    | entry :: rest => (entry.1, named deep path entry) :: entryFindings deep path rest
  termination_by structural entries => entries
  named (deep : Bool) (path : Bytes) : Bytes × Node → List Finding
    | (name, node) =>
      if !Path.isVisible name then []
      else if node.isFile then [⟨[name], none⟩]
      else if deep then
        (findings deep (Path.join path name) node).map fun found => { found with steps := name :: found.steps }
      else []
  termination_by structural entry => entry

end Node

namespace FileSystem

def findings (fs : FileSystem) (deep : Bool) (path : Bytes) : Except IoCause (List Finding) :=
  (fs.lookup path).map (Node.findings deep path)

def subfolder? (fs : FileSystem) (path : Bytes) (entry : Bytes × Node) : Option Subfolder :=
  let below := Path.join path entry.1
  if !Path.isHidden entry.1.shown && fs.isDir below then some ⟨entry.1.shown, below⟩ else none

def subfolders (fs : FileSystem) (path : Bytes) : Except IoCause (List Subfolder) :=
  (fs.readDir path).map fun entries =>
    (entries.filterMap (fs.subfolder? path)).mergeSort fun a b => decide (a.key ≤ b.key)

end FileSystem

end SweepPlot
