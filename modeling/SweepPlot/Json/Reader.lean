import SweepPlot.Document
import SweepPlot.Number.Reading
import SweepPlot.Text
set_option autoImplicit false

/-!
JSON texts as documents. The grammar is followed strictly: no comments, no commas before a closing bracket,
no control characters in strings. A string with half of a surrogate pair is well formed but names no text,
so it may only be passed over, and so may a table with such a key.
-/

namespace SweepPlot.Json

abbrev Parse (α : Type) := List Char → Option (α × List Char)

def isSpace (c : Char) : Bool :=
  c == ' ' || c == '\n' || c == '\t' || c == '\r'

def skip (cs : List Char) : List Char :=
  cs.dropWhile isSpace

def hexUnit? (digits : List Char) : Option Nat :=
  (digits.mapM Text.hexValue?).map fun values => values.foldl (fun n v => 16 * n + v) 0

def escape? : Char → Option Nat
  | '"' => some 0x22
  | '\\' => some 0x5C
  | '/' => some 0x2F
  | 'b' => some 0x08
  | 'f' => some 0x0C
  | 'n' => some 0x0A
  | 'r' => some 0x0D
  | 't' => some 0x09
  | _ => none

/-- Code points and escaped 16-bit units up to the closing quote. -/
def units : Parse (List Nat)
  | [] => none
  | '"' :: rest => some ([], rest)
  | '\\' :: 'u' :: a :: b :: c :: d :: rest =>
    match hexUnit? [a, b, c, d] with
    | none => none
    | some n => (units rest).map fun (us, rest) => (n :: us, rest)
  | '\\' :: c :: rest =>
    match escape? c with
    | none => none
    | some n => (units rest).map fun (us, rest) => (n :: us, rest)
  | c :: rest =>
    if c.toNat < 0x20 then none
    else (units rest).map fun (us, rest) => (c.toNat :: us, rest)

def isHigh (u : Nat) : Bool := decide (0xD800 ≤ u ∧ u < 0xDC00)
def isLow (u : Nat) : Bool := decide (0xDC00 ≤ u ∧ u < 0xE000)

/-- Surrogate pairs become one character each; a half alone has none. -/
def joinUnits : List Nat → Option (List Char)
  | [] => some []
  | [u] => if isHigh u || isLow u then none else some [Char.ofNat u]
  | u :: v :: rest =>
    if isHigh u then
      if isLow v then
        (joinUnits rest).map (Char.ofNat (0x10000 + (u - 0xD800) * 0x400 + (v - 0xDC00)) :: ·)
      else none
    else if isLow u then none
    else (joinUnits (v :: rest)).map (Char.ofNat u :: ·)

def text? (us : List Nat) : Option String :=
  (joinUnits us).map String.ofList

def ofUnits (us : List Nat) : Document :=
  match text? us with
  | some s => .text s
  | none => .other

def fraction? : List Char → Option (Bool × List Char)
  | '.' :: rest =>
    match rest.takeWhile Number.isDigit with
    | [] => none
    | _ => some (true, rest.dropWhile Number.isDigit)
  | cs => some (false, cs)

def exponent? : List Char → Option (Bool × List Char)
  | c :: rest =>
    if c = 'e' ∨ c = 'E' then
      let rest := (Number.unsigned rest).2
      match rest.takeWhile Number.isDigit with
      | [] => none
      | _ => some (true, rest.dropWhile Number.isDigit)
    else some (false, c :: rest)
  | [] => some (false, [])

/-- Integers within 64 bits count as such, except a negative zero. -/
def ofInteger (negative : Bool) (n : Nat) : Document :=
  let v : Int := if negative then -(n : Int) else n
  if (negative && n == 0) || !Number.inInt64 v then .other else .int v

def number : Parse Document := fun cs =>
  let (negative, body) : Bool × List Char := match cs with
    | '-' :: rest => (true, rest)
    | _ => (false, cs)
  let digits := body.takeWhile Number.isDigit
  let rest := body.dropWhile Number.isDigit
  if digits.isEmpty || (digits.head? == some '0' && digits.length != 1) then none
  else do
    let (fractional, rest) ← fraction? rest
    let (scaled, rest) ← exponent? rest
    return (if fractional || scaled then .other else ofInteger negative (Number.digitsValue digits), rest)

def word (cs : List Char) : Option (Document × List Char) :=
  match cs with
  | 'n' :: 'u' :: 'l' :: 'l' :: rest => some (.null, rest)
  | 't' :: 'r' :: 'u' :: 'e' :: rest => some (.flag true, rest)
  | 'f' :: 'a' :: 'l' :: 's' :: 'e' :: rest => some (.flag false, rest)
  | _ => none

def ofMembers (members : List (List Nat × Document)) : Document :=
  match members.mapM fun (key, value) => (text? key).map fun key => (key, value) with
  | some entries => .table entries
  | none => .other

mutual

/-- A value, with at most the given number of steps into brackets and past commas. -/
def value : Nat → Parse Document
  | 0, _ => none
  | steps + 1, cs =>
    match skip cs with
    | '"' :: rest => (units rest).map fun (us, rest) => (ofUnits us, rest)
    | '[' :: rest =>
      match skip rest with
      | ']' :: rest => some (.list [], rest)
      | _ => (items steps rest).map fun (items, rest) => (.list items, rest)
    | '{' :: rest =>
      match skip rest with
      | '}' :: rest => some (.table [], rest)
      | _ => (members steps rest).map fun (members, rest) => (ofMembers members, rest)
    | cs => (word cs).or (number cs)

def items : Nat → Parse (List Document)
  | 0, _ => none
  | steps + 1, cs =>
    match value steps cs with
    | none => none
    | some (item, rest) =>
      match skip rest with
      | ']' :: rest => some ([item], rest)
      | ',' :: rest => (items steps rest).map fun (more, rest) => (item :: more, rest)
      | _ => none

def members : Nat → Parse (List (List Nat × Document))
  | 0, _ => none
  | steps + 1, cs =>
    match skip cs with
    | '"' :: rest =>
      match units rest with
      | none => none
      | some (key, rest) =>
        match skip rest with
        | ':' :: rest =>
          match value steps rest with
          | none => none
          | some (item, rest) =>
            match skip rest with
            | '}' :: rest => some ([(key, item)], rest)
            | ',' :: rest => (members steps rest).map fun (more, rest) => ((key, item) :: more, rest)
            | _ => none
        | _ => none
    | _ => none

end

def read (s : String) : Option Document :=
  match value (s.length + 1) s.toList with
  | some (document, rest) => if (skip rest).isEmpty then some document else none
  | none => none

end SweepPlot.Json
