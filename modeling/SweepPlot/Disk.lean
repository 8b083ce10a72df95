import SweepPlot.CommandLine.Tool
set_option autoImplicit false

/-!
The part of the disk that a run looks at, as a tree of files, and the way back. Along a path each step is
noted, a link with the place it leads to in the end; below a root that is a directory come the entries that
the run may list, with the content of the files it may choose.
-/

namespace SweepPlot.Disk

structure Sighting where
  location : Location
  node : Node

/-- Puts a node into a tree with the directories that lead to it; a directory that is there keeps its entries. -/
def plant (new : Node) : Location → Node → Node
  | [], .dir (entry :: rest) =>
    match new with
    | .dir [] => .dir (entry :: rest)
    | _ => new
  | [], _ => new
  | name :: rest, old =>
    .dir (Node.setEntry name (plant new rest ((old.child? name).getD .empty)) old.entries)

def treeOf (sightings : List Sighting) : Node :=
  (sightings.mergeSort fun a b => decide (a.location.length ≤ b.location.length)).foldl
    (fun tree seen => plant seen.node seen.location tree) .empty

/-- The path of a location; where a name is no text, the disk is asked for the name that is displayed. -/
def pathOf (location : Location) : String :=
  "/" ++ String.intercalate "/" (location.map Bytes.shown)

def locationOf (path : String) : Location :=
  (Path.steps path).filter fun step => step != []

def nowhere : String := "/\x00/\x00"

def realPath? (path : String) : BaseIO (Option String) := do
  match ← (IO.FS.realPath path).toBaseIO with
  | .ok real => return some real.toString
  | .error _ => return none

def isDirectory (path : String) : BaseIO Bool := do
  match ← (IO.FS.realPath path).toBaseIO with
  | .ok real => real.isDir
  | .error _ => return false

def content (path : String) : BaseIO Node := do
  match ← (IO.FS.readBinFile path).toBaseIO with
  | .ok bytes => return .file bytes.data.toList
  | .error _ => return .locked false

partial def directory (wanted : String → Bool) (deep : Bool) (path : String) : IO Node := do
  match ← (do (← IO.FS.realPath path).readDir : IO (Array IO.FS.DirEntry)).toBaseIO with
  | .error _ => return .locked true
  | .ok found =>
    let entries ← found.toList.filterMapM fun entry => do
      let below := entry.path.toString
      match (← entry.path.symlinkMetadata).type with
      | .dir => return some (↑entry.fileName, ← if deep then directory wanted deep below else pure .empty)
      | .file => return some (↑entry.fileName, ← if wanted entry.fileName then content below else pure (.file []))
      | .symlink => return some (↑entry.fileName, .link ((← realPath? below).getD nowhere))
      | .other => return none
    return .dir entries

def isListed (here : Location) (name : String) : BaseIO Bool := do
  match ← (do ((← IO.FS.realPath (pathOf here)) / name).symlinkMetadata : IO IO.FS.Metadata).toBaseIO with
  | .ok _ => return true
  | .error _ => return false

def follow : List Bytes → Location → BaseIO (List Sighting × Option Location)
  | [], here => return ([], some here)
  | step :: rest, here => do
    if step = [] ∨ step = Path.here then follow rest here
    else if step = Path.up then follow rest here.dropLast
    else
      let next := here ++ [step]
      match ← realPath? (pathOf next) with
      | none => return (if ← isListed here step.shown then [⟨next, .link nowhere⟩] else [], none)
      | some real =>
        let place := locationOf real
        let node ← if ← isDirectory real then pure .empty else content real
        let (seen, last) ← follow rest place
        let links := if place = next then [] else [⟨next, .link real⟩]
        return (links ++ ⟨place, node⟩ :: seen, last)

def look (workDir : Location) (path : String) : BaseIO (List Sighting × Option Location) :=
  if path.toList.contains '\x00' then return ([], none)
  else follow (Path.steps path) (if Path.isAbsolute path then [] else workDir)

def linked (wanted : String → Bool) (node : Node) : IO (List Sighting) :=
  node.entries.filterMapM fun (_, entry) => do
    match entry with
    | .link target =>
      let target := target.shown
      if ← isDirectory target then return some ⟨locationOf target, ← directory wanted true target⟩
      else return none
    | _ => return none

/-- What a path meets, and what may be listed in the directory where it ends. -/
def lookInto (wanted : String → Bool) (deep : Bool) (workDir : Location) (path : String) : IO (List Sighting) := do
  let (seen, last) ← look workDir path
  match last with
  | none => return seen
  | some place =>
    if ← isDirectory (pathOf place) then
      let node ← directory wanted deep (pathOf place)
      return seen ++ ⟨place, node⟩ :: (← if deep then linked wanted node else pure [])
    else return seen

def seenOn (workDir : Location) (paths : List String) : BaseIO (List Sighting) :=
  paths.flatMapM fun path => return (← look workDir path).1

def seenBy (workDir : Location) (r : Request) : IO (List Sighting) := do
  let deep := r.recursive || r.mode != .flat
  let roots ← r.roots.flatMapM (lookInto r.choice.acceptsName deep workDir)
  return roots ++ (← seenOn workDir (r.outputPath :: r.summary.toList))

/-- What a command line is about: the files that its flags name, then those of the request that they make. -/
def filesFor (args : List String) : IO FileSystem := do
  let workDir := locationOf (← IO.FS.realPath ".").toString
  match CommandLine.read {} args with
  | .flags flags =>
    let named ← seenOn workDir (flags.config.toList ++ flags.sample.toList)
    let seen := ⟨workDir, .empty⟩ :: named
    match CommandLine.requestOf ⟨treeOf seen, workDir⟩ flags with
    | .ok request => return ⟨treeOf (seen ++ (← seenBy workDir request)), workDir⟩
    | .error _ => return ⟨treeOf seen, workDir⟩
  | _ => return ⟨.empty, workDir⟩

partial def freshPath (path : String) (n : Nat) : BaseIO String := do
  let candidate := path ++ ".tmp" ++ toString n
  if (← realPath? candidate).isSome then freshPath path (n + 1) else return candidate

def replace (path : String) (bytes : Bytes) : IO Unit := do
  let filled ← freshPath path 0
  IO.FS.writeBinFile filled ⟨bytes.toArray⟩
  IO.FS.rename filled path

/-- A file that only grows is appended to; any other that differs is replaced. -/
def renew (path : String) (before after : Bytes) : IO Unit := do
  if before = after then return
  else if before.isPrefixOf after then
    IO.FS.withFile path .append fun handle => handle.write ⟨(after.drop before.length).toArray⟩
  else replace path after

partial def bring (path : Bytes) (before : Option Node) (after : Node) : IO Unit :=
  match before, after with
  | some (.dir old), .dir entries => below old entries
  | _, .dir entries => do
    IO.FS.createDir path.shown
    below [] entries
  | some (.file old), .file new => renew path.shown old new
  | _, .file new => replace path.shown new
  | _, _ => return
where
  below (old entries : List (Bytes × Node)) : IO Unit :=
    entries.forM fun (name, node) => bring (Path.join path name) (old.lookup name) node

end SweepPlot.Disk
