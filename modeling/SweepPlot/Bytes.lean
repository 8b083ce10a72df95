set_option autoImplicit false

namespace SweepPlot

abbrev Bytes := List UInt8

namespace Bytes

def ofText (s : String) : Bytes :=
  s.toUTF8.data.toList

instance : Coe String Bytes := ⟨ofText⟩

def text? (bytes : Bytes) : Option String :=
  String.fromUTF8? ⟨bytes.toArray⟩

/-- Spaces, tabs, line ends and form feeds; the vertical tab is none of them. -/
def isBlank (b : UInt8) : Bool :=
  b == 0x20 || b == 0x09 || b == 0x0A || b == 0x0C || b == 0x0D

def trimStart (bytes : Bytes) : Bytes :=
  bytes.dropWhile isBlank

def trim (bytes : Bytes) : Bytes :=
  (trimStart (trimStart bytes).reverse).reverse

def isTail (b : UInt8) : Bool :=
  0x80 ≤ b && b ≤ 0xBF

def isPair (a b : UInt8) : Bool :=
  0xC2 ≤ a && a ≤ 0xDF && isTail b

/-- Neither overlong forms nor surrogates are well formed. -/
def isTriple (a b c : UInt8) : Bool :=
  isTail c &&
    if a == 0xE0 then 0xA0 ≤ b && b ≤ 0xBF
    else if a == 0xED then 0x80 ≤ b && b ≤ 0x9F
    else 0xE1 ≤ a && a ≤ 0xEF && isTail b

def isQuadruple (a b c d : UInt8) : Bool :=
  isTail c && isTail d &&
    if a == 0xF0 then 0x90 ≤ b && b ≤ 0xBF
    else if a == 0xF4 then 0x80 ≤ b && b ≤ 0x8F
    else 0xF1 ≤ a && a ≤ 0xF3 && isTail b

def validLength : Bytes → Nat
  | [] => 0
  | a :: rest =>
    if a < 0x80 then validLength rest + 1
    else match rest with
      | [] => 0
      | b :: rest =>
        if isPair a b then validLength rest + 2
        else match rest with
          | [] => 0
          | c :: rest =>
            if isTriple a b c then validLength rest + 3
            else match rest with
              | [] => 0
              | d :: rest => if isQuadruple a b c d then validLength rest + 4 else 0

/-- Length of a broken piece: its first byte and those after it that a character could have gone on with. -/
def brokenLength : Bytes → Nat
  | a :: b :: rest =>
    if isTriple a b 0x80 then 2
    else if isQuadruple a b 0x80 0x80 then if rest.head?.any isTail then 3 else 2
    else 1
  | _ => 1

def mended : Nat → Bytes → String
  | 0, _ => ""
  | n + 1, bytes =>
    let valid := validLength bytes
    let rest := bytes.drop valid
    ((text? (bytes.take valid)).getD "") ++
      if rest = [] then "" else "\uFFFD" ++ mended n (rest.drop (brokenLength rest))

def shown (bytes : Bytes) : String :=
  match text? bytes with
  | some s => s
  | none => mended (bytes.length + 1) bytes

end Bytes

end SweepPlot
