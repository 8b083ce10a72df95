import SweepPlot.Document
import SweepPlot.Text
set_option autoImplicit false

namespace SweepPlot.Json

def hexPair (n : Nat) : String :=
  String.ofList [Text.hexDigit (n / 16), Text.hexDigit (n % 16)]

def escapedChar (c : Char) : String :=
  match c with
  | '"' => "\\\""
  | '\\' => "\\\\"
  | '\n' => "\\n"
  | '\r' => "\\r"
  | '\t' => "\\t"
  | other =>
    if other.toNat = 0x08 then "\\b"
    else if other.toNat = 0x0C then "\\f"
    else if other.toNat < 0x20 then "\\u00" ++ hexPair other.toNat
    else other.toString

def quoted (s : String) : String :=
  "\"" ++ String.join (s.toList.map escapedChar) ++ "\""

def lineStart (depth : Nat) : String :=
  "\n" ++ String.ofList (List.replicate (2 * depth) ' ')

def bracketed (opening closing : String) (depth : Nat) (lines : List String) : String :=
  if lines.isEmpty then opening ++ closing
  else
    opening ++ lineStart (depth + 1) ++ String.intercalate ("," ++ lineStart (depth + 1)) lines ++
      lineStart depth ++ closing

def textAt (depth : Nat) : Document → String
  | .null => "null"
  | .flag true => "true"
  | .flag false => "false"
  | .int v => toString v
  | .text s => quoted s
  | .date => "null"
  | .other => "null"
  | .list items => bracketed "[" "]" depth (itemTexts (depth + 1) items)
  | .table entries => bracketed "\x7b" "\x7d" depth (entryTexts (depth + 1) entries)
termination_by structural document => document
where
  itemTexts (depth : Nat) : List Document → List String
    | [] => []
    | item :: rest => textAt depth item :: itemTexts depth rest
  termination_by structural items => items
  entryTexts (depth : Nat) : List (String × Document) → List String
    | [] => []
    | entry :: rest => entryText depth entry :: entryTexts depth rest
  termination_by structural entries => entries
  entryText (depth : Nat) : String × Document → String
    | (key, item) => quoted key ++ ": " ++ textAt depth item
  termination_by structural entry => entry

def write (document : Document) : String :=
  textAt 0 document

end SweepPlot.Json
