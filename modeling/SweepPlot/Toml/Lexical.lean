import SweepPlot.Document
import SweepPlot.Number.Reading
import SweepPlot.Text
set_option autoImplicit false

namespace SweepPlot.Toml

def isBlank (c : Char) : Bool :=
  c == ' ' || c == '\t'

/-- No control characters but the tab. -/
def isPrintable (c : Char) : Bool :=
  c == '\t' || (0x20 ≤ c.toNat && c.toNat != 0x7F)

def skipBlanks (cs : List Char) : List Char :=
  cs.dropWhile isBlank

/-! ### Strings -/

def cutBasic : List Char → Option (List Char × List Char)
  | [] => none
  | '"' :: rest => some ([], rest)
  | '\\' :: c :: rest => (cutBasic rest).map fun (raw, rest) => ('\\' :: c :: raw, rest)
  | c :: rest => (cutBasic rest).map fun (raw, rest) => (c :: raw, rest)

/-- Content up to three closing quotes, of which up to two more before them belong to the content. -/
def cutLong (quote : Char) (escapes : Bool) : Nat → Bool → List Char → Option (List Char × List Char)
  | run, _, [] => if 3 ≤ run then some (List.replicate (run - 3) quote, []) else none
  | run, escaped, c :: rest =>
    if escaped then (cutLong quote escapes 0 false rest).map fun (raw, rest) => (c :: raw, rest)
    else if c = quote then if run = 5 then none else cutLong quote escapes (run + 1) false rest
    else if 3 ≤ run then some (List.replicate (run - 3) quote, c :: rest)
    else
      (cutLong quote escapes 0 (escapes && c == '\\') rest).map fun (raw, rest) =>
        (List.replicate run quote ++ c :: raw, rest)

/-- Line ends are line feeds; a carriage return belongs to no text otherwise. -/
def unifyLines : List Char → Option (List Char)
  | [] => some []
  | '\r' :: '\n' :: rest => (unifyLines rest).map ('\n' :: ·)
  | c :: rest => if isPrintable c || c == '\n' then (unifyLines rest).map (c :: ·) else none

/-- Where the reading of escapes stands: in plain text, after a backslash, in a code with digits to come,
or at a line end that is skipped with the blanks after it. -/
inductive Escape where
  | plain
  | slash
  | code (digits value : Nat)
  | lineEnd
  | skipping

def simpleEscape? : Char → Option Char
  | 'b' => some '\x08'
  | 't' => some '\t'
  | 'n' => some '\n'
  | 'f' => some '\x0c'
  | 'r' => some '\r'
  | '"' => some '"'
  | '\\' => some '\\'
  | _ => none

def unescape (long : Bool) : Escape → List Char → Option (List Char)
  | .plain, [] => some []
  | .skipping, [] => some []
  | _, [] => none
  | .plain, c :: rest =>
    if c = '\\' then unescape long .slash rest else (unescape long .plain rest).map (c :: ·)
  | .slash, c :: rest =>
    if c = 'u' then unescape long (.code 4 0) rest
    else if c = 'U' then unescape long (.code 8 0) rest
    else if long && isBlank c then unescape long .lineEnd rest
    else if long && c == '\n' then unescape long .skipping rest
    else
      match simpleEscape? c with
      | some e => (unescape long .plain rest).map (e :: ·)
      | none => none
  | .code digits v, c :: rest =>
    match Text.hexValue? c with
    | none => none
    | some d =>
      let v := 16 * v + d
      if digits = 1 then
        if v.isValidChar then (unescape long .plain rest).map (Char.ofNat v :: ·) else none
      else unescape long (.code (digits - 1) v) rest
  | .lineEnd, c :: rest =>
    if isBlank c then unescape long .lineEnd rest
    else if c = '\n' then unescape long .skipping rest
    else none
  | .skipping, c :: rest =>
    if isBlank c || c == '\n' then unescape long .skipping rest
    else if c = '\\' then unescape long .slash rest
    else (unescape long .plain rest).map (c :: ·)

def dropFirstLineEnd : List Char → List Char
  | '\n' :: rest => rest
  | '\r' :: '\n' :: rest => rest
  | cs => cs

def shortString : List Char → Option (String × List Char)
  | '"' :: rest => do
    let (raw, rest) ← cutBasic rest
    if raw.all isPrintable then
      let content ← unescape false .plain raw
      return (String.ofList content, rest)
    else none
  | '\'' :: rest =>
    let raw := rest.takeWhile (· != '\'')
    match rest.dropWhile (· != '\'') with
    | _ :: rest => if raw.all isPrintable then some (String.ofList raw, rest) else none
    | [] => none
  | _ => none

def longString (quote : Char) (body : List Char) : Option (String × List Char) := do
  let escapes := quote == '"'
  let (raw, rest) ← cutLong quote escapes 0 false (dropFirstLineEnd body)
  let lines ← unifyLines raw
  if escapes then
    let content ← unescape true .plain lines
    return (String.ofList content, rest)
  else return (String.ofList lines, rest)

def string : List Char → Option (String × List Char)
  | '"' :: '"' :: '"' :: rest => longString '"' rest
  | '\'' :: '\'' :: '\'' :: rest => longString '\'' rest
  | cs => shortString cs

/-! ### Numbers -/

def digits? (accepts : Char → Bool) (cs : List Char) : Option (List Char) :=
  let parts := Text.split '_' cs
  if parts.all fun part => !part.isEmpty && part.all accepts then some parts.flatten else none

def isHex (c : Char) : Bool := (Text.hexValue? c).isSome
def isOctal (c : Char) : Bool := '0' ≤ c && c ≤ '7'
def isBinary (c : Char) : Bool := c == '0' || c == '1'

def based? (base : Nat) (accepts : Char → Bool) (cs : List Char) : Option Int :=
  (digits? accepts cs).map fun ds => (ds.foldl (fun n c => base * n + (Text.hexValue? c).getD 0) 0 : Nat)

def plainDigits? (cs : List Char) : Option (List Char) :=
  match digits? Number.isDigit cs with
  | some ds => if ds.head? = some '0' ∧ ds.length ≠ 1 then none else some ds
  | none => none

def integer? (cs : List Char) : Option Int :=
  match cs with
  | '0' :: 'x' :: ds => based? 16 isHex ds
  | '0' :: 'o' :: ds => based? 8 isOctal ds
  | '0' :: 'b' :: ds => based? 2 isBinary ds
  | cs =>
    let (negative, body) := Number.unsigned cs
    (plainDigits? body).map fun ds =>
      let n : Int := Number.digitsValue ds
      if negative then -n else n

def isFraction (cs : List Char) : Bool :=
  match Text.split '.' cs with
  | [whole] => (plainDigits? whole).isSome
  | [whole, part] => (plainDigits? whole).isSome && (digits? Number.isDigit part).isSome
  | _ => false

def isExponent (cs : List Char) : Bool :=
  (digits? Number.isDigit (Number.unsigned cs).2).isSome

def isTooLarge (cs : List Char) : Bool :=
  match Number.number? (String.ofList (cs.filter (· != '_'))) with
  | some x => x.toBits.toNat == Number.infinityBits
  | none => false

/-- Whether the word is a number with a fraction or an exponent, or infinite or no number. Infinity must be
spelled out, though a negative number may be beyond every double. -/
def isFloat (cs : List Char) : Bool :=
  let body := (Number.unsigned cs).2
  if body = ['i', 'n', 'f'] ∨ body = ['n', 'a', 'n'] then true
  else
    !isTooLarge cs &&
      match Text.split 'e' (body.map fun c => if c = 'E' then 'e' else c) with
      | [front] => front.contains '.' && isFraction front
      | [front, back] => isFraction front && isExponent back
      | _ => false

/-! ### Dates and times -/

def pairIn? (low high : Nat) (a b : Char) : Bool :=
  Number.isDigit a && Number.isDigit b &&
    (let n := Number.digitsValue [a, b]
     decide (low ≤ n ∧ n ≤ high))

def isLeap (year : Nat) : Bool :=
  year % 4 == 0 && (year % 100 != 0 || year % 400 == 0)

def daysIn (year month : Nat) : Nat :=
  if month = 2 then if isLeap year then 29 else 28
  else if month = 4 ∨ month = 6 ∨ month = 9 ∨ month = 11 then 30
  else 31

def afterDate? : List Char → Option (List Char)
  | y1 :: y2 :: y3 :: y4 :: '-' :: m1 :: m2 :: '-' :: d1 :: d2 :: rest =>
    if [y1, y2, y3, y4].all Number.isDigit && pairIn? 1 12 m1 m2 &&
        pairIn? 1 (daysIn (Number.digitsValue [y1, y2, y3, y4]) (Number.digitsValue [m1, m2])) d1 d2 then
      some rest
    else none
  | _ => none

def afterFraction? : List Char → Option (List Char)
  | '.' :: rest =>
    if (rest.takeWhile Number.isDigit).isEmpty then none else some (rest.dropWhile Number.isDigit)
  | cs => some cs

def afterTime? : List Char → Option (List Char)
  | h1 :: h2 :: ':' :: m1 :: m2 :: ':' :: s1 :: s2 :: rest =>
    if pairIn? 0 23 h1 h2 && pairIn? 0 59 m1 m2 && pairIn? 0 60 s1 s2 then afterFraction? rest else none
  | _ => none

def isOffset : List Char → Bool
  | [] => true
  | [c] => c == 'Z' || c == 'z'
  | [sign, h1, h2, ':', m1, m2] => (sign == '+' || sign == '-') && pairIn? 0 23 h1 h2 && pairIn? 0 59 m1 m2
  | _ => false

def isTimeWithOffset (cs : List Char) : Bool :=
  match afterTime? cs with
  | some rest => isOffset rest
  | none => false

def isDateTime (cs : List Char) : Bool :=
  match afterDate? cs with
  | some [] => true
  | some (c :: rest) => (c == 'T' || c == 't' || c == ' ') && isTimeWithOffset rest
  | none => afterTime? cs == some []

/-! ### Words -/

def isWordChar (c : Char) : Bool :=
  Number.isDigit c || ('a' ≤ c && c ≤ 'z') || ('A' ≤ c && c ≤ 'Z') ||
    c == '_' || c == '+' || c == '-' || c == '.' || c == ':'

def classify (cs : List Char) : Option Document :=
  if cs = ['t', 'r', 'u', 'e'] then some (.flag true)
  else if cs = ['f', 'a', 'l', 's', 'e'] then some (.flag false)
  else
    match integer? cs with
    | some n => if Number.inInt64 n then some (.int n) else none
    | none => if isFloat cs then some .other else if isDateTime cs then some .date else none

/-- A word; a date may be followed by one blank and a time. -/
def word (cs : List Char) : Option (Document × List Char) :=
  let front := cs.takeWhile isWordChar
  let rest := cs.dropWhile isWordChar
  let spaced : List Char × List Char :=
    match afterDate? front, rest with
    | some [], ' ' :: more =>
      let time := more.takeWhile isWordChar
      if isTimeWithOffset time then (front ++ ' ' :: time, more.dropWhile isWordChar) else (front, rest)
    | _, _ => (front, rest)
  (classify spaced.1).map fun document => (document, spaced.2)

end SweepPlot.Toml
