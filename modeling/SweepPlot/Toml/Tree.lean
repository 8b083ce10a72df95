import SweepPlot.Document
set_option autoImplicit false

namespace SweepPlot.Toml

/-- How a table came about: on the way to another one, by dotted keys, or by a header of its own. -/
inductive Origin where
  | implied
  | dotted
  | stated
  deriving DecidableEq, Repr

inductive Tree where
  | value (document : Document)
  | table (origin : Origin) (entries : List (String × Tree))
  | tables (latestFirst : List (List (String × Tree)))

abbrev Entries := List (String × Tree)

namespace Entries

def set (key : String) (tree : Tree) : Entries → Entries
  | [] => [(key, tree)]
  | entry :: rest => if entry.1 = key then (key, tree) :: rest else entry :: set key tree rest

/-- Changes the table at a path; tables missing on the way are made. -/
def edit (viaDots : Bool) (change : Origin → Entries → Option Entries) :
    List String → Origin → Entries → Option Entries
  | [], origin, entries => change origin entries
  | key :: rest, _, entries =>
    match entries.lookup key with
    | none =>
      let origin := if viaDots then .dotted else .implied
      (edit viaDots change rest origin []).map fun child => entries ++ [(key, .table origin child)]
    | some (.table origin child) =>
      if viaDots ∧ origin = .stated then none
      else (edit viaDots change rest origin child).map fun child => set key (.table origin child) entries
    | some (.tables (latest :: earlier)) =>
      (edit viaDots change rest .stated latest).map fun latest => set key (.tables (latest :: earlier)) entries
    | some _ => none

def addPlain (key : String) (document : Document) (entries : Entries) : Option Entries :=
  match entries.lookup key with
  | none => some (entries ++ [(key, .value document)])
  | some _ => none

/-- Adds a value under a dotted key; every table on the way must have been made by dotted keys. -/
def addKey (front : List String) (key : String) (document : Document) (entries : Entries) : Option Entries :=
  edit true (fun origin entries =>
    if (origin == .dotted) == front.isEmpty then none else addPlain key document entries)
    front .stated entries

def openTable (key : String) (entries : Entries) : Option Entries :=
  match entries.lookup key with
  | none => some (entries ++ [(key, .table .stated [])])
  | some (.table .implied child) => some (set key (.table .stated child) entries)
  | some _ => none

def openElement (key : String) (entries : Entries) : Option Entries :=
  match entries.lookup key with
  | none => some (entries ++ [(key, .tables [[]])])
  | some (.tables items) => some (set key (.tables ([] :: items)) entries)
  | some _ => none

end Entries

namespace Tree

def document : Tree → Document
  | value document => document
  | table _ entries => .table (entryDocuments entries)
  | tables items => .list (tableDocuments items).reverse
termination_by structural tree => tree
where
  entryDocuments : List (String × Tree) → List (String × Document)
    | [] => []
    | entry :: rest => entryDocument entry :: entryDocuments rest
  termination_by structural entries => entries
  entryDocument : String × Tree → String × Document
    | (key, tree) => (key, document tree)
  termination_by structural entry => entry
  tableDocuments : List (List (String × Tree)) → List Document
    | [] => []
    | entries :: rest => .table (entryDocuments entries) :: tableDocuments rest
  termination_by structural items => items

end Tree

end SweepPlot.Toml
