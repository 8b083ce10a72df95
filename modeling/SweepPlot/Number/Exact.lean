set_option autoImplicit false

namespace SweepPlot.Number

inductive Exact where
  | nan
  | infinite (negative : Bool)
  | finite (negative : Bool) (significand : Nat) (exponent : Int)
  deriving DecidableEq, Repr

def twoTo (k : Nat) : Nat :=
  Nat.pow 2 k

def tenTo (k : Nat) : Nat :=
  Nat.pow 10 k

/-- The sign is the top bit of 64; the lowest bit of the exponent is the bit above the fraction. -/
def signBit : Nat := twoTo 63
def exponentBit : Nat := twoTo 52

def exactOfBits (bits : Nat) : Exact :=
  let negative := decide (signBit ≤ bits)
  let field : Nat := bits / exponentBit % 2048
  let fraction : Nat := bits % exponentBit
  if field = 2047 then
    if fraction = 0 then .infinite negative else .nan
  else if field = 0 then .finite negative fraction (-1074)
  else .finite negative (fraction + exponentBit) ((field : Int) - 1075)

def exact (x : Float) : Exact :=
  exactOfBits x.toBits.toNat

/-- Position of a double in the total order: negative values run backwards below zero, and the two
zeros are neighbours. -/
def orderKey (x : Float) : Int :=
  let bits := x.toBits.toNat
  if bits < signBit then bits else (signBit : Int) - 1 - bits

def infinityBits : Nat := 0x7FF0000000000000

def magnitude (x : Float) : Nat :=
  x.toBits.toNat % signBit

def isNumber (x : Float) : Bool :=
  decide (magnitude x ≤ infinityBits)

def isFinite (x : Float) : Bool :=
  decide (magnitude x < infinityBits)

/-- Position of a number on the line, where the two zeros are one. -/
def lineKey (x : Float) : Int :=
  if x.toBits.toNat < signBit then magnitude x else -(magnitude x : Int)

def below (a b : Float) : Bool :=
  isNumber a && isNumber b && decide (lineKey a < lineKey b)

def atMost (a b : Float) : Bool :=
  isNumber a && isNumber b && decide (lineKey a ≤ lineKey b)

/-- The smaller of two numbers; a NaN gives way to the other, and of equal ones the second stays. -/
def least (a b : Float) : Float :=
  if !isNumber a || atMost b a then b else a

def greatest (a b : Float) : Float :=
  if !isNumber a || atMost a b then b else a

def whole? (x : Float) : Option Int :=
  match exact x with
  | .finite negative significand exponent =>
    let magnitude : Option Nat :=
      if 0 ≤ exponent then some (significand * twoTo exponent.toNat)
      else if significand % twoTo (-exponent).toNat = 0 then some (significand / twoTo (-exponent).toNat)
      else none
    magnitude.map fun n => if negative then -(n : Int) else n
  | _ => none

/-- The quotient rounded to nearest, a tie going to the even neighbour. -/
def roundDiv (n d : Nat) : Nat :=
  let q := n / d
  let r := 2 * (n % d)
  if r < d then q else if d < r then q + 1 else if q % 2 = 0 then q else q + 1

/-- The double nearest to an integer, as an integer: all but the leading 53 bits are rounded off. -/
def nearestWhole (n : Int) : Int :=
  let unit := twoTo (n.natAbs.log2 - 52)
  let rounded : Int := (roundDiv n.natAbs unit * unit : Nat)
  if n < 0 then -rounded else rounded

/-- The nearest integer, halves going away from zero; NaN counts as zero, infinity as beyond 64 bits. -/
def roundAway (x : Float) : Int :=
  match exact x with
  | .nan => 0
  | .infinite negative => if negative then -(twoTo 64 : Int) else twoTo 64
  | .finite negative m q =>
    let n : Nat := (2 * m * twoTo q.toNat / twoTo (-q).toNat + 1) / 2
    if negative then -(n : Int) else n

/-- How many times the second number goes into the first, rounded up; zero if either is not positive and
finite. -/
def timesIn (x y : Float) : Nat :=
  match exact x, exact y with
  | .finite false m q, .finite false n p =>
    let whole := m * twoTo (q - p).toNat
    let part := n * twoTo (p - q).toNat
    (whole + part - 1) / part
  | _, _ => 0

def minInt64 : Int := -9223372036854775808
def maxInt64 : Int := 9223372036854775807

def inInt64 (n : Int) : Bool :=
  decide (minInt64 ≤ n ∧ n ≤ maxInt64)

def clampInt64 (n : Int) : Int :=
  max minInt64 (min n maxInt64)

def wordCount : Nat := 4294967296

def clampInt32 (n : Int) : Int :=
  max (-2147483648) (min n 2147483647)

def wrapInt32 (n : Int) : Int :=
  Int.bmod n wordCount

end SweepPlot.Number
