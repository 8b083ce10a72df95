import SweepPlot.Toml.Lexical
import SweepPlot.Toml.Tree
set_option autoImplicit false

namespace SweepPlot.Toml

abbrev Parse (α : Type) := List Char → Option (α × List Char)

def finishLine (cs : List Char) : Option (List Char) :=
  let cs := skipBlanks cs
  let cs := if cs.head? = some '#' then (cs.drop 1).dropWhile isPrintable else cs
  match cs with
  | [] => some []
  | '\n' :: rest => some rest
  | '\r' :: '\n' :: rest => some rest
  | _ => none

def skipLines (inComment : Bool) : List Char → Option (List Char)
  | [] => some []
  | '\r' :: '\n' :: rest => skipLines false rest
  | c :: rest =>
    if c = '\n' then skipLines false rest
    else if inComment then if isPrintable c then skipLines true rest else none
    else if isBlank c then skipLines false rest
    else if c = '#' then skipLines true rest
    else some (c :: rest)

def isBare (c : Char) : Bool :=
  Number.isDigit c || ('a' ≤ c && c ≤ 'z') || ('A' ≤ c && c ≤ 'Z') || c == '_' || c == '-'

def simpleKey (cs : List Char) : Option (String × List Char) :=
  match cs with
  | '"' :: _ => shortString cs
  | '\'' :: _ => shortString cs
  | cs =>
    if (cs.takeWhile isBare).isEmpty then none
    else some (String.ofList (cs.takeWhile isBare), cs.dropWhile isBare)

/-- How many brackets a value may stand in, and how many parts a dotted key may have. -/
def nestingLimit : Nat := 79

def keyPath : Nat → Parse (List String)
  | 0, _ => none
  | more + 1, cs =>
    match simpleKey (skipBlanks cs) with
    | none => none
    | some (key, rest) =>
      match skipBlanks rest with
      | '.' :: rest => (keyPath more rest).map fun (keys, rest) => (key :: keys, rest)
      | rest => some ([key], rest)

def splitLast : List String → Option (List String × String)
  | [] => none
  | [key] => some ([], key)
  | key :: rest => (splitLast rest).map fun (front, last) => (key :: front, last)

mutual

/-- A value, with at most the given number of steps into brackets and past commas, and room for a number of
brackets within each other. -/
def value : Nat → Nat → Parse Document
  | 0, _, _ => none
  | steps + 1, room, cs =>
    match cs with
    | '"' :: _ => (string cs).map fun (s, rest) => (.text s, rest)
    | '\'' :: _ => (string cs).map fun (s, rest) => (.text s, rest)
    | '[' :: rest =>
      if room = 0 then none
      else (items steps (room - 1) rest).map fun (items, rest) => (.list items, rest)
    | '{' :: rest =>
      if room = 0 then none
      else
        match skipBlanks rest with
        | '}' :: rest => some (.table [], rest)
        | rest => (members steps (room - 1) [] rest).map fun (entries, rest) =>
          (Tree.document (.table .stated entries), rest)
    | cs => word cs

def items : Nat → Nat → Parse (List Document)
  | 0, _, _ => none
  | steps + 1, room, cs =>
    match skipLines false cs with
    | none => none
    | some (']' :: rest) => some ([], rest)
    | some cs =>
      match value steps room cs with
      | none => none
      | some (item, rest) =>
        match skipLines false rest with
        | some (']' :: rest) => some ([item], rest)
        | some (',' :: rest) => (items steps room rest).map fun (more, rest) => (item :: more, rest)
        | _ => none

def members : Nat → Nat → Entries → Parse Entries
  | 0, _, _, _ => none
  | steps + 1, room, entries, cs =>
    match keyPath nestingLimit cs with
    | some (path, '=' :: rest) =>
      match value steps room (skipBlanks rest), splitLast path with
      | some (item, rest), some (front, key) =>
        match entries.addKey front key item, skipBlanks rest with
        | some entries, '}' :: rest => some (entries, rest)
        | some entries, ',' :: rest => members steps room entries rest
        | _, _ => none
      | _, _ => none
    | _ => none

end

structure Reading where
  root : Entries
  section_ : List String

def Reading.start : Reading := ⟨[], []⟩

def header (closing : List Char) (open_ : String → Entries → Option Entries) (state : Reading)
    (cs : List Char) : Option (Reading × List Char) := do
  let (path, rest) ← keyPath nestingLimit cs
  let (front, key) ← splitLast path
  if closing.isPrefixOf rest then
    let root ← Entries.edit false (fun _ entries => open_ key entries) front .stated state.root
    return (⟨root, path⟩, rest.drop closing.length)
  else none

def keyValue (state : Reading) (cs : List Char) : Option (Reading × List Char) := do
  let (path, rest) ← keyPath nestingLimit cs
  let (front, key) ← splitLast path
  match rest with
  | '=' :: rest =>
    let (item, rest) ← value (rest.length + 1) nestingLimit (skipBlanks rest)
    let root ← Entries.edit false (fun _ entries => entries.addKey front key item) state.section_ .stated state.root
    return ({ state with root := root }, rest)
  | _ => none

def statement (state : Reading) (cs : List Char) : Option (Reading × List Char) :=
  match skipBlanks cs with
  | [] => some (state, [])
  | '#' :: rest => some (state, '#' :: rest)
  | '\n' :: rest => some (state, '\n' :: rest)
  | '\r' :: rest => some (state, '\r' :: rest)
  | '[' :: '[' :: rest => header [']', ']'] Entries.openElement state rest
  | '[' :: rest => header [']'] Entries.openTable state rest
  | cs => keyValue state cs

def lines : Nat → Reading → List Char → Option Reading
  | _, state, [] => some state
  | 0, _, _ => none
  | more + 1, state, cs =>
    match statement state cs with
    | none => none
    | some (state, rest) =>
      match finishLine rest with
      | none => none
      | some rest => lines more state rest

def dropMark : List Char → List Char
  | '\uFEFF' :: cs => cs
  | cs => cs

def read (s : String) : Option Document :=
  (lines s.length .start (dropMark s.toList)).map fun state => Tree.document (.table .stated state.root)

end SweepPlot.Toml
