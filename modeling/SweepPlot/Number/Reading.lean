import SweepPlot.Number.Exact
set_option autoImplicit false

namespace SweepPlot.Number

def isDigit (c : Char) : Bool :=
  '0' ≤ c && c ≤ '9'

def digitsValue (cs : List Char) : Nat :=
  cs.foldl (fun n c => 10 * n + (c.toNat - 48)) 0

def unsigned : List Char → Bool × List Char
  | '-' :: cs => (true, cs)
  | '+' :: cs => (false, cs)
  | cs => (false, cs)

def wholeDigits? (cs : List Char) : Option Nat :=
  if cs ≠ [] ∧ cs.all isDigit then some (digitsValue cs) else none

def integer? (s : String) : Option Int :=
  let (negative, body) := unsigned s.toList
  match wholeDigits? body with
  | some n =>
    let v : Int := if negative then -(n : Int) else n
    if inInt64 v then some v else none
  | none => none

/-- The largest power of two, as an exponent, that is at most n / d. -/
def binade (n d : Nat) : Int :=
  let guess : Int := (n.log2 : Int) - d.log2
  if d * twoTo guess.toNat ≤ n * twoTo (-guess).toNat then guess else guess - 1

/-- Bits of the double nearest to a positive quotient. The significand has 53 bits unless the exponent is the
smallest one; a significand that is rounded up to 54 bits carries into the exponent. -/
def nearestBits (n d : Nat) : Nat :=
  let exponent := max (binade n d - 52) (-1074)
  let significand := roundDiv (n * twoTo (-exponent).toNat) (d * twoTo exponent.toNat)
  min ((exponent + 1074).toNat * exponentBit + significand) infinityBits

/-- Bits of the double nearest to m * 10 ^ e; exponents no double can reach are settled at once. -/
def decimalBits (m : Nat) (e : Int) : Nat :=
  let size : Int := (toString m).length + e
  if m = 0 ∨ size < -400 then 0
  else if 400 < size then infinityBits
  else nearestBits (m * tenTo e.toNat) (tenTo (-e).toNat)

def exponent? : List Char → Option Int
  | [] => some 0
  | c :: cs =>
    if c = 'e' ∨ c = 'E' then
      let (negative, body) := unsigned cs
      (wholeDigits? body).map fun n => if negative then -(n : Int) else n
    else none

def decimal? (cs : List Char) : Option Nat :=
  let front := cs.takeWhile isDigit
  let rest := cs.dropWhile isDigit
  let (back, rest) : List Char × List Char :=
    match rest with
    | '.' :: more => (more.takeWhile isDigit, more.dropWhile isDigit)
    | _ => ([], rest)
  if front = [] ∧ back = [] then none
  else (exponent? rest).map fun e => decimalBits (digitsValue (front ++ back)) (e - back.length)

def notNumberBits : Nat := 0x7FF8000000000000

def word? (cs : List Char) : Option Nat :=
  match String.ofList (cs.map Char.toLower) with
  | "inf" => some infinityBits
  | "infinity" => some infinityBits
  | "nan" => some notNumberBits
  | _ => none

def ofBits (negative : Bool) (magnitude : Nat) : Float :=
  Float.ofBits (UInt64.ofNat (if negative then magnitude + signBit else magnitude))

def number? (s : String) : Option Float :=
  let (negative, body) := unsigned s.toList
  ((decimal? body).or (word? body)).map (ofBits negative)

/-- An integer cell, also spelled as a number without a fractional part and below 2 ^ 63 in size. -/
def count? (s : String) : Option Int :=
  match integer? s with
  | some v => some v
  | none =>
    match (number? s).bind whole? with
    | some v => if v.natAbs < signBit then some v else none
    | none => none

end SweepPlot.Number
