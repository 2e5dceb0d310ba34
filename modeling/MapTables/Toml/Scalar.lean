import MapTables.Decimal.Integer
import MapTables.Toml.Text
import MapTables.Toml.Value

/-!
# Numbers, truth values and times in TOML

What stands without quotes: whole numbers in four bases, numbers with a fraction or an
exponent, truth values, dates and times. Underscores may stand between digits.
-/

namespace MapTables.Toml

/-- The digits of a number without the underscores between them. -/
def digits? (isDigit : Char → Bool) : List Char → Option (List Char)
  | [] => none
  | [c] => if isDigit c then some [c] else none
  | c :: '_' :: rest => if isDigit c then (digits? isDigit rest).map (c :: ·) else none
  | c :: rest => if isDigit c then (digits? isDigit rest).map (c :: ·) else none

def numeral (base : Nat) (ds : List Char) : Nat :=
  ds.foldl (fun n c => n * base + (hexDigit? c).getD 0) 0

/-- Digits that do not start with a zero, unless they are nothing else. -/
def plainDigits? (cs : List Char) : Option (List Char) := do
  let ds ← digits? Char.isDigit cs
  if ds.head? = some '0' ∧ ds.length ≠ 1 then none else some ds

def sign : List Char → Bool × List Char
  | '-' :: rest => (true, rest)
  | '+' :: rest => (false, rest)
  | cs => (false, cs)

def numberBits : Nat := 64

def inRange (n : Int) : Option Int := if Decimal.inWord numberBits n then some n else none

def based? (base : Nat) (cs : List Char) : Option Int := do
  let isDigit (c : Char) := (hexDigit? c).any (· < base)
  inRange (numeral base (← digits? isDigit cs))

def integer? : List Char → Option Int
  | '0' :: 'x' :: rest => based? 16 rest
  | '0' :: 'o' :: rest => based? 8 rest
  | '0' :: 'b' :: rest => based? 2 rest
  | cs => do
    let (minus, rest) := sign cs
    let n : Int := numeral 10 (← plainDigits? rest)
    inRange (if minus then -n else n)

def isExponentMark (c : Char) : Bool := c == 'e' || c == 'E'

def splitAt? (p : Char → Bool) (cs : List Char) : Option (List Char × List Char) :=
  match cs.dropWhile (!p ·) with
  | [] => none
  | _ :: rest => some (cs.takeWhile (!p ·), rest)

def isExponent (cs : List Char) : Bool := (digits? Char.isDigit (sign cs).2).isSome

/-- A number with a fraction, an exponent, or both; or one that is none. -/
def isReal (cs : List Char) : Bool :=
  let cs := (sign cs).2
  if cs = "inf".toList ∨ cs = "nan".toList then true else
  let (mantissa, exponent) := match splitAt? isExponentMark cs with
    | some (m, e) => (m, some e)
    | none => (cs, none)
  match splitAt? (· == '.') mantissa, exponent with
  | some (whole, fraction), e =>
    (plainDigits? whole).isSome && (digits? Char.isDigit fraction).isSome && e.all isExponent
  | none, some e => (plainDigits? mantissa).isSome && isExponent e
  | none, none => false

/-- Two digits of a number that is no larger than a limit. -/
def isPair (limit : Nat) (a b : Char) : Bool :=
  a.isDigit && b.isDigit && decide (numeral 10 [a, b] ≤ limit)

def isOffset : List Char → Bool
  | ['Z'] | ['z'] => true
  | s :: a :: b :: ':' :: c :: d :: [] => (s == '+' || s == '-') && isPair 23 a b && isPair 59 c d
  | _ => false

/-- What may follow the seconds of a time. -/
def isTimeTail (offset : Bool) (cs : List Char) : Bool :=
  let rest := match cs with
    | '.' :: rest =>
      if rest.head?.any Char.isDigit then some (rest.dropWhile Char.isDigit) else none
    | cs => some cs
  rest.any fun r => r.isEmpty || (offset && isOffset r)

def isTime (offset : Bool) : List Char → Bool
  | a :: b :: ':' :: c :: d :: ':' :: e :: f :: rest =>
    isPair 23 a b && isPair 59 c d && isPair 60 e f && isTimeTail offset rest
  | _ => false

def isDate : List Char → Bool
  | a :: b :: c :: d :: '-' :: e :: f :: '-' :: g :: h :: [] =>
    isPair 99 a b && isPair 99 c d && isPair 12 e f && isPair 31 g h &&
      numeral 10 [e, f] != 0 && numeral 10 [g, h] != 0
  | _ => false

def isMoment (cs : List Char) : Bool :=
  let date := cs.take 10
  match cs.drop 10 with
  | [] => isDate date || isTime false cs
  | c :: rest =>
    (isDate date && (c == 'T' || c == 't' || c == ' ') && isTime true rest) || isTime false cs

def bare? (cs : List Char) : Option Scalar :=
  if cs = "true".toList then some (.truth true)
  else if cs = "false".toList then some (.truth false)
  else
    match integer? cs with
    | some n => some (.integer n)
    | none => if isReal cs || isMoment cs then some .different else none

def isBareChar (c : Char) : Bool := c.isAlphanum || c == '_' || c == '+' || c == '-' || c == '.' || c == ':'

/-- A text without quotes. One space may stand between a date and a time. -/
def bareText (cs : List Char) : List Char × List Char :=
  let front := cs.takeWhile isBareChar
  let rest := cs.dropWhile isBareChar
  match rest with
  -- A digit behind the space can only start a time.
  | ' ' :: c :: more =>
    if isDate front && c.isDigit then
      (front ++ ' ' :: (c :: more).takeWhile isBareChar, (c :: more).dropWhile isBareChar)
    else (front, rest)
  | rest => (front, rest)

def bare : Reader Scalar := fun cs =>
  let (front, rest) := bareText cs
  (bare? front).map fun s => (s, rest)

end MapTables.Toml
