import MapTables.Decimal.Integer
import MapTables.Time.Date

/-!
# Timestamps

A timestamp is an instant in UTC, to the nanosecond. A minute may have a sixty-first
second, which is kept. Its text has the date, `T`, the time, the fewest groups of three
fraction digits that lose nothing, and `Z`.
-/

namespace MapTables.Time

/-- An instant in UTC. Second 60 is a leap second. -/
structure Timestamp where
  date : Date
  /-- Minutes since the day began. -/
  minute : Nat
  second : Nat
  nanosecond : Nat
  minute_lt : minute < 1440
  second_le : second ≤ 60
  nanosecond_lt : nanosecond < 1000000000
deriving DecidableEq

/-! ## Reading -/

/-- A number of exactly so many digits, and what follows it. -/
def fixedDigits (width : Nat) (cs : List Char) : Option (Nat × List Char) :=
  let ds := cs.take width
  if ds.length = width ∧ ds.all Decimal.isDigit then some (Decimal.foldDigits 0 ds, cs.drop width)
  else none

def expect (p : Char → Bool) : List Char → Option (List Char)
  | c :: cs => if p c then some cs else none
  | [] => none

/-- Fraction digits as nanoseconds; digits after the ninth are dropped. -/
def nanoseconds (digits : List Char) : Nat :=
  let kept := digits.take 9
  Decimal.foldDigits 0 kept * Decimal.tenTo (9 - kept.length)

/-- An optional point and at least one digit. -/
def fraction? : List Char → Option (Nat × List Char)
  | '.' :: cs =>
    let ds := cs.takeWhile Decimal.isDigit
    if ds = [] then none else some (nanoseconds ds, cs.dropWhile Decimal.isDigit)
  | cs => some (0, cs)

/-- Minutes that local time is ahead of UTC: `Z`, or a sign with hours and minutes, at the
end of the text. The minus may also be U+2212. -/
def offset? : List Char → Option Int
  | ['Z'] | ['z'] => some 0
  | c :: cs => do
    let sign : Int ← if c = '+' then some 1 else if c = '-' ∨ c = '\u2212' then some (-1) else none
    let (hours, cs) ← fixedDigits 2 cs
    let cs ← expect (· == ':') cs
    let (minutes, cs) ← fixedDigits 2 cs
    if cs = [] ∧ hours ≤ 23 ∧ minutes ≤ 59 then some (sign * (hours * 60 + minutes : Nat)) else none
  | [] => none

/-- The UTC day and minute of a local day and minute, less than a day apart. -/
def toUtc (date : Date) (minute : Nat) (ahead : Int) : Date × Nat :=
  let m : Int := minute - ahead
  -- Both `minute` and `ahead` lie within a day, so one day further is enough.
  if m < 0 then (date.previous, (m + 1440).toNat)
  else if 1440 ≤ m then (date.next, (m - 1440).toNat)
  else (date, m.toNat)

def Timestamp.ofLocal? (date : Date) (hour minute second nanosecond : Nat) (ahead : Int) :
    Option Timestamp :=
  if hour < 24 ∧ minute < 60 then
    let (day, m) := toUtc date (hour * 60 + minute) ahead
    if h : m < 1440 ∧ second ≤ 60 ∧ nanosecond < 1000000000 then
      some ⟨day, m, second, nanosecond, h.1, h.2.1, h.2.2⟩
    else none
  else none

/-- The characters that may stand between date and time. -/
def isDateTimeSeparator (c : Char) : Bool := c == 'T' || c == 't' || c == ' '

def Timestamp.ofChars? (cs : List Char) : Option Timestamp := do
  let (year, cs) ← fixedDigits 4 cs
  let cs ← expect (· == '-') cs
  let (month, cs) ← fixedDigits 2 cs
  let cs ← expect (· == '-') cs
  let (day, cs) ← fixedDigits 2 cs
  let date ← Date.ofNumbers? year month day
  let cs ← expect isDateTimeSeparator cs
  let (hour, cs) ← fixedDigits 2 cs
  let cs ← expect (· == ':') cs
  let (minute, cs) ← fixedDigits 2 cs
  let cs ← expect (· == ':') cs
  let (second, cs) ← fixedDigits 2 cs
  let (nanosecond, cs) ← fraction? cs
  let ahead ← offset? cs
  Timestamp.ofLocal? date hour minute second nanosecond ahead

def Timestamp.ofText? (s : String) : Option Timestamp := Timestamp.ofChars? s.toList

/-! ## Writing -/

def padded (width n : Nat) : List Char :=
  let ds := Nat.toDigits 10 n
  List.replicate (width - ds.length) '0' ++ ds

/-- Four digits, or a sign and at least four digits outside the years 0 to 9999. -/
def yearChars (year : Int) : List Char :=
  if year < 0 then '-' :: padded 4 (-year).toNat
  else if 9999 < year then '+' :: padded 4 year.toNat
  else padded 4 year.toNat

/-- No digits, or a point and 3, 6 or 9 digits. -/
def fractionChars (nanosecond : Nat) : List Char :=
  if nanosecond = 0 then []
  else if nanosecond % 1000000 = 0 then '.' :: padded 3 (nanosecond / 1000000)
  else if nanosecond % 1000 = 0 then '.' :: padded 6 (nanosecond / 1000)
  else '.' :: padded 9 nanosecond

def Date.toChars (d : Date) : List Char :=
  yearChars d.year ++ '-' :: (padded 2 d.month ++ '-' :: padded 2 d.day)

def Timestamp.toChars (t : Timestamp) : List Char :=
  t.date.toChars ++ 'T' :: (padded 2 (t.minute / 60) ++ ':' :: (padded 2 (t.minute % 60) ++
    ':' :: (padded 2 t.second ++ (fractionChars t.nanosecond ++ ['Z']))))

def Timestamp.toText (t : Timestamp) : String := String.ofList t.toChars

end MapTables.Time
