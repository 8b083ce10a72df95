import SweepPlot.Number.Reading
import SweepPlot.Request.Basic
set_option autoImplicit false

/-!
The flags of the command line. Arguments are taken one by one; the first that is unknown, lacks its value,
has a value that does not fit, or repeats a flag that stands once ends the reading. List flags may be
repeated and their values hold commas between items; after two dashes all arguments are roots.
-/

namespace SweepPlot.CommandLine

structure Flags where
  roots : List String := []
  sweep : Option Sweep := none
  layout : Option LayoutKind := none
  mode : Option MergeMode := none
  variants : List String := []
  queues : List String := []
  highlight : List String := []
  ignore : List String := []
  right : List String := []
  metric : Option Metric := none
  ticks : List Int := []
  perTrial : Bool := false
  recursive : Bool := false
  start : Option String := none
  failFast : Bool := false
  output : Option String := none
  showText : Bool := false
  summary : Option String := none
  config : Option String := none
  sample : Option String := none
  deriving DecidableEq, Repr

inductive Reading where
  | flags (flags : Flags)
  | help
  | version
  | refused
  deriving DecidableEq, Repr

def switches : List String := ["per-trial", "recursive", "fail-fast", "show"]

def valueFlags : List String :=
  ["kind", "layout", "mode", "variant", "queues", "highlight", "ignore", "right", "metric", "x-ticks", "prefix",
    "output", "summary-csv", "config", "generate-config"]

def once {α : Type} (old : Option α) (new : Option α) : Option (Option α) :=
  match old, new with
  | none, some value => some (some value)
  | _, _ => none

def path? (s : String) : Option String :=
  if s = "" then none else some s

def setSwitch (f : Flags) : String → Option Flags
  | "per-trial" => if f.perTrial then none else some { f with perTrial := true }
  | "recursive" => if f.recursive then none else some { f with recursive := true }
  | "fail-fast" => if f.failFast then none else some { f with failFast := true }
  | "show" => if f.showText then none else some { f with showText := true }
  | _ => none

def parts (value : String) : List String :=
  Text.splitText ',' value

def setValue (f : Flags) (name value : String) : Option Flags :=
  match name with
  | "kind" => (once f.sweep (Sweep.ofWord value).toOption).map fun v => { f with sweep := v }
  | "layout" => (once f.layout (LayoutKind.ofWord value).toOption).map fun v => { f with layout := v }
  | "mode" => (once f.mode (MergeMode.ofWord value).toOption).map fun v => { f with mode := v }
  | "metric" => (once f.metric (Metric.ofWord value).toOption).map fun v => { f with metric := v }
  | "variant" => some { f with variants := f.variants ++ [value] }
  | "queues" => some { f with queues := f.queues ++ parts value }
  | "highlight" => some { f with highlight := f.highlight ++ parts value }
  | "ignore" => some { f with ignore := f.ignore ++ parts value }
  | "right" => some { f with right := f.right ++ parts value }
  | "x-ticks" => ((parts value).mapM Number.integer?).map fun v => { f with ticks := f.ticks ++ v }
  | "prefix" => (once f.start (some value)).map fun v => { f with start := v }
  | "output" => (once f.output (path? value)).map fun v => { f with output := v }
  | "summary-csv" => (once f.summary (path? value)).map fun v => { f with summary := v }
  | "config" => (once f.config (path? value)).map fun v => { f with config := v }
  | "generate-config" => (once f.sample (path? value)).map fun v => { f with sample := v }
  | _ => none

def addRoots (f : Flags) (roots : List String) : Option Flags :=
  if roots.contains "" then none else some { f with roots := f.roots ++ roots }

inductive Argument where
  | root (path : String)
  | endOfFlags
  | switch (name : String)
  | flag (name : String)
  | valued (name value : String)
  | help
  | version
  | unknown
  deriving DecidableEq, Repr

def longArgument (body : List Char) : Argument :=
  let name := String.ofList (body.takeWhile (· != '='))
  match body.dropWhile (· != '=') with
  | _ :: value => if valueFlags.contains name then .valued name (String.ofList value) else .unknown
  | [] =>
    if name = "help" then .help
    else if name = "version" then .version
    else if switches.contains name then .switch name
    else if valueFlags.contains name then .flag name
    else .unknown

def shortArgument : List Char → Argument
  | 'h' :: _ => .help
  | 'V' :: _ => .version
  | ['o'] => .flag "output"
  | 'o' :: '=' :: value => .valued "output" (String.ofList value)
  | 'o' :: value => .valued "output" (String.ofList value)
  | _ => .unknown

def argumentOf (s : String) : Argument :=
  match s.toList with
  | ['-', '-'] => .endOfFlags
  | '-' :: '-' :: body => longArgument body
  | ['-'] => .root s
  | '-' :: body => shortArgument body
  | _ => .root s

def read : Flags → List String → Reading
  | f, [] => .flags f
  | f, arg :: rest =>
    match argumentOf arg with
    | .root path =>
      match addRoots f [path] with
      | some f => read f rest
      | none => .refused
    | .endOfFlags =>
      match addRoots f rest with
      | some f => .flags f
      | none => .refused
    | .switch name =>
      match setSwitch f name with
      | some f => read f rest
      | none => .refused
    | .valued name value =>
      match setValue f name value with
      | some f => read f rest
      | none => .refused
    | .flag name =>
      match rest with
      | [] => .refused
      | value :: rest =>
        match argumentOf value with
        | .root value =>
          match setValue f name value with
          | some f => read f rest
          | none => .refused
        | _ => .refused
    | .help => .help
    | .version => .version
    | .unknown => .refused

end SweepPlot.CommandLine
