import MapTables.Decimal.Nearest

/-!
# The shortest decimal of a double

The text of a double has the fewest digits that read back to it; of two such numbers
the nearer is taken, and the larger when both are equally near. The plain text is always
positional: zeros fill up to the point and no exponent is written. The marked text shows
that the number is no integer.
-/

namespace MapTables.Decimal

/-- The `m` and `q` of a finite double `m * 2 ^ q`, from its magnitude's bits. -/
def unpackBits (bits : Nat) : Nat × Int :=
  let field : Nat := bits / twoTo 52
  let fraction : Nat := bits % twoTo 52
  if field = 0 then (fraction, -1074) else (twoTo 52 + fraction, (field : Int) - 1075)

/-- A positive number and the numbers that read back to it, in a common unit
`1 / scale`: those between the bounds, and the bounds too where `closed`. -/
structure Interval where
  value : Nat
  lower : Nat
  upper : Nat
  scale : Nat
  closed : Bool
deriving Repr

/-- The numbers that round to `m * 2 ^ q`. Below a power of two the next double is half
as far away as above it. -/
def readingBack (m : Nat) (q : Int) : Interval :=
  let gap := if m = twoTo 52 ∧ -1074 < q then 1 else 2
  let up (n : Nat) := n <<< (q - 2).toNat
  ⟨up (4 * m), up (4 * m - gap), up (4 * m + 2), 1 <<< (2 - q).toNat, m % 2 == 0⟩

def Interval.holds (i : Interval) (n : Nat) (e : Int) : Bool :=
  let x := n * tenTo e.toNat * i.scale
  let down := tenTo (-e).toNat
  if i.closed then i.lower * down ≤ x && x ≤ i.upper * down
  else i.lower * down < x && x < i.upper * down

/-- The multiple of `10 ^ e` at or below the value, counted in that unit. -/
def Interval.below (i : Interval) (e : Int) : Nat :=
  i.value * tenTo (-e).toNat / (i.scale * tenTo e.toNat)

/-- Whether the multiple above is at least as near to the value as the one below. -/
def Interval.nearerAbove (i : Interval) (e : Int) : Bool :=
  let d := i.below e
  let x := i.value * tenTo (-e).toNat
  (2 * d + 1) * tenTo e.toNat * i.scale ≤ 2 * x

/-- The one of the two multiples of `10 ^ e` beside the value that reads back. -/
def Interval.onGrid? (i : Interval) (e : Int) : Option Nat :=
  let d := i.below e
  match i.holds d e, i.holds (d + 1) e with
  | true, true => some (if i.nearerAbove e then d + 1 else d)
  | true, false => some d
  | false, true => some (d + 1)
  | false, false => none

/-- Zeros between the point and the first digit of a value below one. -/
def leadingZeros (scale : Nat) : Nat → Nat → Nat
  | 0, _ => 0
  | fuel + 1, value => if scale ≤ value * 10 then 0 else leadingZeros scale fuel (value * 10) + 1

/-- The `k` with `10 ^ (k - 1) ≤ value < 10 ^ k`. -/
def Interval.decimalPlace (i : Interval) : Int :=
  if i.scale ≤ i.value then ((Nat.toDigits 10 (i.value / i.scale)).length : Int)
  -- No positive double has four hundred zeros behind its point.
  else -(leadingZeros i.scale 400 i.value : Int)

/-- The first grid, from coarse to fine, on which a neighbour of the value reads back. -/
def Interval.firstOnGrid (i : Interval) (place : Int) : List Nat → Numeral
  -- Seventeen digits tell all doubles apart, so some grid before this was fine enough.
  | [] => ⟨i.below (place - 17), place - 17⟩
  | n :: ns =>
    match i.onGrid? (place - n) with
    | some d => ⟨d, place - n⟩
    | none => i.firstOnGrid place ns

/-- The shortest digits that read back to a positive finite double, and their scale. The
coarsest grid is that of the power of ten above the value. -/
def shortest (m : Nat) (q : Int) : Numeral :=
  let i := readingBack m q
  i.firstOnGrid i.decimalPlace (List.range 18)

def positional (n : Numeral) : String :=
  let ds := Nat.toDigits 10 n.digits
  let point := ds.length - (-n.exponent).toNat
  String.ofList <|
    if 0 ≤ n.exponent then ds ++ List.replicate n.exponent.toNat '0'
    else if 0 < point then ds.take point ++ '.' :: ds.drop point
    else '0' :: '.' :: (List.replicate ((-n.exponent).toNat - ds.length) '0' ++ ds)

/-- The text of a double whose finite positive values are written by a rule. -/
def renderWith (write : Numeral → String) (zero : String) (x : Float) : String :=
  if x.isNaN then "NaN" else
  let bits := x.toBits.toNat
  let magnitude := bits % twoTo 63
  let sign := if bits < twoTo 63 then "" else "-"
  sign ++
    if magnitude = 0x7FF0000000000000 then "inf"
    else if magnitude = 0 then zero
    else
      let (m, q) := unpackBits magnitude
      write (shortest m q)

def render (x : Float) : String := renderWith positional "0" x

/-- Digits with a point behind the first one and the power of ten that this leaves. -/
def scientific (n : Numeral) : String :=
  let ds := Nat.toDigits 10 n.digits
  let point := if ds.length ≤ 1 then [] else ['.']
  String.ofList (ds.take 1 ++ point ++ ds.drop 1) ++ s!"e{n.exponent + ds.length - 1}"

/-- Digits written so that they cannot be taken for an integer: with a power of ten below
`10 ^ -4` and from `10 ^ 16` on, else with a place behind the point. -/
def marked (n : Numeral) : String :=
  let top : Int := n.exponent + (Nat.toDigits 10 n.digits).length
  if top < -3 ∨ 16 < top then scientific n
  else if 0 ≤ n.exponent then positional n ++ ".0"
  else positional n

def renderMarked (x : Float) : String := renderWith marked "0.0" x

end MapTables.Decimal
