import MapTables.Decimal.Integer
import MapTables.Decimal.Nearest

/-!
# Decimal reals

A real is an optional sign, then `inf`, `infinity` or `nan` in any ASCII case, or
digits with an optional point and an optional exponent. At least one digit stands on
one side of the point. Its value is the nearest double.
-/

namespace MapTables.Decimal

/-- An exponent: nothing, or `e` and an integer. -/
def exponent? : List Char → Option Int
  | [] => some 0
  | c :: cs => if c = 'e' ∨ c = 'E' then signed? cs else none

/-- Digits, an optional point with digits, an optional exponent. -/
def numeral? (cs : List Char) : Option Numeral :=
  let whole := cs.takeWhile isDigit
  let rest := cs.dropWhile isDigit
  let (fraction, rest) := match rest with
    | '.' :: r => (r.takeWhile isDigit, r.dropWhile isDigit)
    | r => ([], r)
  if whole = [] ∧ fraction = [] then none
  else (exponent? rest).map fun e =>
    ⟨foldDigits (foldDigits 0 whole) fraction, e - fraction.length⟩

def splitSign : List Char → Bool × List Char
  | '-' :: cs => (true, cs)
  | '+' :: cs => (false, cs)
  | cs => (false, cs)

def infinity : Float := Float.ofBits 0x7FF0000000000000
def notANumber : Float := Float.ofBits 0x7FF8000000000000

/-- The words that stand for a value without digits. -/
def named? (word : List Char) : Option Float :=
  match String.ofList (word.map Char.toLower) with
  | "inf" | "infinity" => some infinity
  | "nan" => some notANumber
  | _ => none

def real? (s : String) : Option Float :=
  let (negative, body) := splitSign s.toList
  match numeral? body with
  | some n => some (nearest negative n)
  | none => (named? body).map fun x => if negative then -x else x

end MapTables.Decimal
