import SweepPlot.Number.Exact
set_option autoImplicit false

/-!
Printed numbers. `positional` writes the fewest digits that read back as the same double, never with an
exponent; `fixed` rounds to a number of places and `scientific` to a number of places before a power of
ten, both to nearest with ties to the even digit. All three work on the exact significand and exponent.
-/

namespace SweepPlot.Number

/-- The decimal exponent of a positive value: the largest k with 10 ^ k at most m * 2 ^ q. -/
def decade (m : Nat) (q : Int) : Int :=
  let guess := ((m.log2 : Int) + q) * 30103 / 100000
  let k := guess + 1
  if tenTo k.toNat * twoTo (-q).toNat ≤ m * twoTo q.toNat * tenTo (-k).toNat then k else guess

/-- The nearer of the two grid points of 10 ^ k beside m * 2 ^ q that read back as that double, the upper one
of two equally near. -/
def nearestOnGrid? (m : Nat) (q k : Int) : Option Nat :=
  let up := twoTo (q - 2).toNat * tenTo (-k).toNat
  let unit := twoTo (2 - q).toNat * tenTo k.toNat
  let value := 4 * m * up
  let low := (if m = exponentBit ∧ -1074 < q then 4 * m - 1 else 4 * m - 2) * up
  let high := (4 * m + 2) * up
  let reads (d : Nat) : Bool :=
    if m % 2 = 0 then low ≤ d * unit && d * unit ≤ high else low < d * unit && d * unit < high
  let below := value / unit
  let above := below + 1
  match reads below && 0 < below, reads above with
  | true, true => some (if value - below * unit < above * unit - value then below else above)
  | true, false => some below
  | false, true => some above
  | false, false => none

/-- The coarsest grid that has a hit, looking at one more digit each time. -/
def searchGrid (m : Nat) (q : Int) : Nat → Int → Nat × Int
  | 0, k => (m * twoTo q.toNat * tenTo (-k).toNat / (twoTo (-q).toNat * tenTo k.toNat), k)
  | more + 1, k =>
    match nearestOnGrid? m q k with
    | some d => (d, k)
    | none => searchGrid m q more (k - 1)

def shortest (m : Nat) (q : Int) : Nat × Int :=
  searchGrid m q 17 (decade m q)

def zeros (n : Nat) : String :=
  String.ofList (List.replicate n '0')

def pointed (n places : Nat) : String :=
  if places = 0 then toString n
  else
    let digits := toString n
    let padded := zeros (places + 1 - digits.length) ++ digits
    let cut := padded.length - places
    String.ofList (padded.toList.take cut) ++ "." ++ String.ofList (padded.toList.drop cut)

def dropEndZeros (n : Nat) (k : Int) : Nat → Nat × Int
  | 0 => (n, k)
  | more + 1 => if n % 10 = 0 then dropEndZeros (n / 10) (k + 1) more else (n, k)

def signed (negative : Bool) (s : String) : String :=
  if negative then "-" ++ s else s

def positional (x : Float) : String :=
  match exact x with
  | .nan => "NaN"
  | .infinite negative => signed negative "inf"
  | .finite negative 0 _ => signed negative "0"
  | .finite negative m q =>
    let (d, k) := shortest m q
    let (d, k) := dropEndZeros d k 20
    signed negative <|
      if 0 ≤ k then toString d ++ zeros k.toNat else pointed d (-k).toNat

def fixed (places : Nat) (x : Float) : String :=
  match exact x with
  | .nan => "NaN"
  | .infinite negative => signed negative "inf"
  | .finite negative m q =>
    signed negative (pointed (roundDiv (m * twoTo q.toNat * tenTo places) (twoTo (-q).toNat)) places)

def scientific (places : Nat) (x : Float) : String :=
  match exact x with
  | .nan => "NaN"
  | .infinite negative => signed negative "inf"
  | .finite negative 0 _ => signed negative (pointed 0 places ++ "e0")
  | .finite negative m q =>
    let e := decade m q
    let k := e - places
    let d := roundDiv (m * twoTo q.toNat * tenTo (-k).toNat) (twoTo (-q).toNat * tenTo k.toNat)
    let (d, e) := if d = tenTo (places + 1) then (d / 10, e + 1) else (d, e)
    signed negative (pointed d places ++ "e" ++ toString e)

end SweepPlot.Number
