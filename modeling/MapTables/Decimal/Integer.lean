import MapTables.Decimal.Power

/-!
# Decimal integers

An integer is an optional sign and one or more ASCII digits. Reading takes the range
the value must lie in; an unsigned number takes `+` but no `-`.
-/

namespace MapTables.Decimal

def isDigit (c : Char) : Bool := '0' ≤ c && c ≤ '9'

def digitValue (c : Char) : Nat := c.toNat - '0'.toNat

/-- The value of digits, read after a number that came before them. -/
def foldDigits (start : Nat) (cs : List Char) : Nat :=
  cs.foldl (fun n c => 10 * n + digitValue c) start

/-- One or more digits and nothing else. -/
def natural? (cs : List Char) : Option Nat :=
  if cs ≠ [] ∧ cs.all isDigit then some (foldDigits 0 cs) else none

/-- An optional sign and one or more digits. -/
def signed? : List Char → Option Int
  | '-' :: cs => (natural? cs).map fun n => -(n : Int)
  | '+' :: cs => (natural? cs).map Int.ofNat
  | cs => (natural? cs).map Int.ofNat

/-- An optional `+` and one or more digits. -/
def unsigned? : List Char → Option Nat
  | '+' :: cs => natural? cs
  | cs => natural? cs

/-- The integers that a word of this many bits holds, in two's complement. -/
def inWord (bits : Nat) (n : Int) : Bool :=
  let half : Int := twoTo (bits - 1)
  decide (-half ≤ n ∧ n < half)

def integer? (bits : Nat) (s : String) : Option Int :=
  (signed? s.toList).filter (inWord bits)

def word? (bits : Nat) (s : String) : Option Nat :=
  (unsigned? s.toList).filter fun n => decide (n < twoTo bits)

theorem inWord_of_integer? {bits : Nat} {s : String} {n : Int} (h : integer? bits s = some n) :
    inWord bits n = true :=
  (Option.filter_eq_some_iff.1 h).2

end MapTables.Decimal
