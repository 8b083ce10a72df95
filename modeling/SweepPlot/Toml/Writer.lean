import SweepPlot.Document
import SweepPlot.Text
set_option autoImplicit false

namespace SweepPlot.Toml

/-- Characters that only an escape can write; line ends and tabs are not among them. -/
def needsCode (c : Char) : Bool :=
  let n := c.toNat
  (n < 0x20 && c != '\n' && c != '\t') || n == 0x7F

def longestRun (c : Char) : Nat → List Char → Nat
  | run, [] => run
  | run, d :: rest => if d = c then longestRun c (run + 1) rest else max run (longestRun c 0 rest)

inductive Quotes where
  | basic
  | plain
  | longBasic
  | longPlain
  deriving DecidableEq, Repr

def quotesFor (s : String) : Quotes :=
  let cs := s.toList
  let codes := cs.any needsCode
  let lines := cs.contains '\n'
  let slashes := cs.contains '\\'
  if !codes && !lines && !slashes && !cs.contains '"' then .basic
  else if !codes && !lines && !cs.contains '\'' then .plain
  else if !codes && !slashes && decide (longestRun '"' 0 cs ≤ 2) then .longBasic
  else if !codes && decide (longestRun '\'' 0 cs ≤ 2) then .longPlain
  else if lines then .longBasic
  else .basic

def upperHex (n : Nat) : Char :=
  (Text.hexDigit n).toUpper

def escapedChar (c : Char) : String :=
  match c with
  | '\t' => "\\t"
  | '\n' => "\\n"
  | '\r' => "\\r"
  | '"' => "\\\""
  | '\\' => "\\\\"
  | other =>
    let n := other.toNat
    if n = 0x08 then "\\b"
    else if n = 0x0C then "\\f"
    else if needsCode other then "\\u00" ++ String.ofList [upperHex (n / 16), upperHex (n % 16)]
    else other.toString

/-- Text between three double quotes: line ends stay, and of three quotes in a row the third is escaped. -/
def longBasicText : Nat → List Char → String
  | _, [] => ""
  | run, c :: rest =>
    if c = '"' then
      if run < 2 then "\"" ++ longBasicText (run + 1) rest else "\\\"" ++ longBasicText 0 rest
    else if c = '\n' then "\n" ++ longBasicText 0 rest
    else escapedChar c ++ longBasicText 0 rest

def stringText (s : String) : String :=
  let lead := if s.toList.contains '\n' then "\n" else ""
  match quotesFor s with
  | .basic => "\"" ++ String.join (s.toList.map escapedChar) ++ "\""
  | .plain => "'" ++ s ++ "'"
  | .longBasic => "\"\"\"" ++ lead ++ longBasicText 0 s.toList ++ "\"\"\""
  | .longPlain => "'''" ++ lead ++ s ++ "'''"

def scalarText : Document → String
  | .flag true => "true"
  | .flag false => "false"
  | .int v => toString v
  | .text s => stringText s
  | _ => ""

def listText (items : List Document) : String :=
  match items with
  | [] => "[]"
  | [item] => "[" ++ scalarText item ++ "]"
  | items => "[\n" ++ String.join (items.map fun item => "    " ++ scalarText item ++ ",\n") ++ "]"

def entryText (key : String) (value : Document) : String :=
  match value with
  | .null => ""
  | .list items => key ++ " = " ++ listText items ++ "\n"
  | .table _ => ""
  | value => key ++ " = " ++ scalarText value ++ "\n"

def sectionText (key : String) (value : Document) : String :=
  match value with
  | .table entries =>
    "\n[" ++ key ++ "]\n" ++ String.join (entries.map fun entry => entryText entry.1 entry.2)
  | _ => ""

/-- A table of plain values and lists of them, and of tables of such; keys are bare words. -/
def write (document : Document) : String :=
  match document with
  | .table entries =>
    String.join (entries.map fun entry => entryText entry.1 entry.2) ++
      String.join (entries.map fun entry => sectionText entry.1 entry.2)
  | _ => ""

end SweepPlot.Toml
