import SweepPlot.Document
import SweepPlot.Request.Basic
set_option autoImplicit false

/-!
Requests as documents and back. A field that is missing has its default and an unknown one is passed over,
but no field may stand twice. Where the formats differ, a list may stand for a table, and a table of one
entry for a word, as each format allows.
-/

namespace SweepPlot

/-- How far a format lets other shapes stand for tables and words. -/
structure DocumentRules where
  /-- Whether a list that stands for a table may be longer than the table. -/
  longLists : Bool
  /-- The values under which a key stands for a word. -/
  isBare : Document → Bool

namespace DocumentRules

def json : DocumentRules where
  longLists := false
  isBare := Document.isNull

def toml : DocumentRules where
  longLists := true
  isBare
    | .list [] => true
    | .table [] => true
    | _ => false

end DocumentRules

namespace Request

abbrev Fields := String → Option Document

def countKey (key : String) (entries : List (String × Document)) : Nat :=
  entries.countP fun entry => entry.1 == key

def fieldsOf (rules : DocumentRules) (names : List String) : Document → Option Fields
  | .table entries =>
    if names.any fun name => decide (1 < countKey name entries) then none
    else some fun name => entries.lookup name
  | .list items =>
    if rules.longLists || decide (items.length ≤ names.length) then
      some fun name => (names.idxOf? name).bind fun i => items[i]?
    else none
  | .date => some fun _ => none
  | _ => none

def Fields.get {α : Type} (fields : Fields) (name : String) (standard : α) (read : Document → Option α) :
    Option α :=
  match fields name with
  | none => some standard
  | some value => read value

def readFlag : Document → Option Bool
  | .flag b => some b
  | _ => none

def readInt : Document → Option Int
  | .int v => some v
  | _ => none

def readText : Document → Option String
  | .text s => some s
  | _ => none

def readOptText : Document → Option (Option String)
  | .null => some none
  | value => (readText value).map some

def readList {α : Type} (read : Document → Option α) : Document → Option (List α)
  | .list items => items.mapM read
  | _ => none

def readWord {α : Type} (rules : DocumentRules) (ofToken? : String → Option α) : Document → Option α
  | .text s => ofToken? s
  | .table [(key, value)] => if rules.isBare value then ofToken? key else none
  | _ => none

def filterNames : List String := ["allow", "highlight", "ignore"]

def readFilter (rules : DocumentRules) (document : Document) : Option Filter := do
  let fields ← fieldsOf rules filterNames document
  let allow ← fields.get "allow" [] (readList readText)
  let highlight ← fields.get "highlight" [] (readList readText)
  let ignore ← fields.get "ignore" [] (readList readText)
  return { allow, highlight, ignore }

def choiceNames : List String := ["exclude_extensions", "name_prefix"]

def readChoice (rules : DocumentRules) (document : Document) : Option FileChoice := do
  let standard : FileChoice := {}
  let fields ← fieldsOf rules choiceNames document
  let exclude ← fields.get "exclude_extensions" standard.exclude (readList readText)
  let start ← fields.get "name_prefix" standard.start readOptText
  return { exclude, start }

def names : List String :=
  ["roots", "variants", "kind", "layout", "mode", "metric", "recursive", "filter", "right", "x_ticks",
    "per_trial", "selection", "error_mode", "output", "show", "summary_csv"]

def ofDocument (rules : DocumentRules) (document : Document) : Option Request := do
  let standard : Request := {}
  let fields ← fieldsOf rules names document
  let roots ← fields.get "roots" standard.roots (readList readText)
  let variants ← fields.get "variants" standard.variants (readList readText)
  let sweep ← fields.get "kind" standard.sweep (readWord rules Sweep.ofToken?)
  let layout ← fields.get "layout" standard.layout (readWord rules LayoutKind.ofToken?)
  let mode ← fields.get "mode" standard.mode (readWord rules MergeMode.ofToken?)
  let metric ← fields.get "metric" standard.metric (readWord rules Metric.ofToken?)
  let recursive ← fields.get "recursive" standard.recursive readFlag
  let filter ← fields.get "filter" standard.filter (readFilter rules)
  let right ← fields.get "right" standard.right (readList readText)
  let ticks ← fields.get "x_ticks" standard.ticks (readList readInt)
  let perTrial ← fields.get "per_trial" standard.perTrial readFlag
  let choice ← fields.get "selection" standard.choice (readChoice rules)
  let errorMode ← fields.get "error_mode" standard.errorMode (readWord rules ErrorMode.ofToken?)
  let output ← fields.get "output" standard.output readOptText
  let showText ← fields.get "show" standard.showText readFlag
  let summary ← fields.get "summary_csv" standard.summary readOptText
  return ⟨roots, variants, sweep, layout, mode, metric, recursive, filter, right, ticks, perTrial, choice,
    errorMode, output, showText, summary⟩

def filterDocument (filter : Filter) : Document :=
  .table [("allow", .texts filter.allow), ("highlight", .texts filter.highlight), ("ignore", .texts filter.ignore)]

def choiceDocument (choice : FileChoice) : Document :=
  .table [("exclude_extensions", .texts choice.exclude), ("name_prefix", .optText choice.start)]

def pathEntry (name : String) (path : Option String) : List (String × Document) :=
  path.toList.map fun path => (name, .text path)

def toDocument (r : Request) : Document :=
  .table <|
    [("roots", .texts r.roots), ("variants", .texts r.variants), ("kind", .text r.sweep.token),
      ("layout", .text r.layout.token), ("mode", .text r.mode.token), ("metric", .text r.metric.token),
      ("recursive", .flag r.recursive), ("filter", filterDocument r.filter), ("right", .texts r.right),
      ("x_ticks", .ints r.ticks), ("per_trial", .flag r.perTrial), ("selection", choiceDocument r.choice),
      ("error_mode", .text r.errorMode.token)] ++
    pathEntry "output" r.output ++ [("show", .flag r.showText)] ++ pathEntry "summary_csv" r.summary

end Request

end SweepPlot
