import MapTables.Decimal.Power

/-!
# The nearest double

A double is `m * 2 ^ q` with `m < 2 ^ 53` and `-1074 ≤ q ≤ 971`. The nearest one to a
fraction is found in exact arithmetic; of two that are equally near, the one with the
even `m` is taken.
-/

namespace MapTables.Decimal

/-- The number `digits * 10 ^ exponent`. -/
structure Numeral where
  digits : Nat
  exponent : Int
deriving Repr, DecidableEq

/-- A quotient rounded to an integer, a half to the even neighbour. -/
def roundHalfEven (num den : Nat) : Nat :=
  let q := num / den
  let r := num % den
  if 2 * r < den then q else if den < 2 * r then q + 1 else q + q % 2

/-- The least `t` with `num / den < 2 ^ (t + 1)`, for a positive fraction. -/
def binaryPlace (num den : Nat) : Int :=
  let t : Int := (num.log2 : Int) - (den.log2 : Int)
  let reaches := if 0 ≤ t then den <<< t.toNat ≤ num else den ≤ num <<< (-t).toNat
  if reaches then t else t - 1

/-- `m * 2 ^ q` as the bits of a double, for `m < 2 ^ 53`; too large a value is infinite. -/
def packBits (m : Nat) (q : Int) : Nat :=
  if 971 < q then 0x7FF0000000000000
  else if m < twoTo 52 then m
  else (q + 1075).toNat * twoTo 52 + (m - twoTo 52)

/-- The bits of the double nearest to `num / den`. -/
def nearestBits (num den : Nat) : Nat :=
  if num = 0 then 0 else
  let q : Int := max (binaryPlace num den - 52) (-1074)
  let m := if 0 ≤ q then roundHalfEven num (den <<< q.toNat)
    else roundHalfEven (num <<< (-q).toNat) den
  if m = twoTo 53 then packBits (twoTo 52) (q + 1) else packBits m q

def ofMagnitude (negative : Bool) (bits : Nat) : Float :=
  Float.ofBits (UInt64.ofNat (if negative then twoTo 63 + bits else bits))

/-- The bits of the double nearest to a numeral. Exponents far outside the range of
doubles are settled without computing the power. -/
def Numeral.nearestBits (n : Numeral) : Nat :=
  let places : Int := (n.digits.log2 / 3 : Nat) + 1
  if n.digits = 0 then 0
  else if 400 < n.exponent then 0x7FF0000000000000
  else if n.exponent + places < -400 then 0
  else if 0 ≤ n.exponent then Decimal.nearestBits (n.digits * tenTo n.exponent.toNat) 1
  else Decimal.nearestBits n.digits (tenTo (-n.exponent).toNat)

def nearest (negative : Bool) (n : Numeral) : Float := ofMagnitude negative n.nearestBits

/-- A rounded quotient is within half a unit of the quotient. -/
theorem roundHalfEven_near (num den : Nat) (h : 0 < den) :
    2 * num ≤ 2 * (roundHalfEven num den * den) + den ∧
      2 * (roundHalfEven num den * den) ≤ 2 * num + den := by
  have hdm := Nat.div_add_mod num den
  have hlt := Nat.mod_lt num h
  have hm : num / den * den = den * (num / den) := Nat.mul_comm _ _
  unfold roundHalfEven
  dsimp only
  split
  · omega
  · split
    · rw [Nat.add_mul]; omega
    · rcases Nat.mod_two_eq_zero_or_one (num / den) with h2 | h2 <;> rw [h2]
      · simp only [Nat.add_zero]; omega
      · rw [Nat.add_mul]; omega

end MapTables.Decimal
