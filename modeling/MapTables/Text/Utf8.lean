/-!
# UTF-8, one octet at a time

The machine reads octets and reports characters and ill-formed stretches. A stretch
is as long as it could still have become a character: the octet that rules it out
starts afresh. Strict reading and reading with replacement are two views of the same
report.
-/

namespace MapTables

abbrev Bytes := List UInt8

def Bytes.ofString (s : String) : Bytes := s.toUTF8.toList

namespace Utf8

/-- A character that has begun: the octets read, the bits they carry, the octets it still
lacks and the bounds of the next. -/
structure Partial where
  seen : Nat
  bits : Nat
  lacking : Nat
  low : UInt8
  high : UInt8
deriving Repr, DecidableEq

/-- What a stretch of octets turned out to be. -/
inductive Piece where
  | char (c : Char)
  /-- This many octets form no character. -/
  | bad (length : Nat)
deriving Repr, DecidableEq

def Piece.size : Piece → Nat
  | .char c => c.utf8Size
  | .bad n => n

/-- An octet between characters. -/
def first (b : UInt8) : Option Partial × List Piece :=
  if b < 0x80 then (none, [.char (Char.ofNat b.toNat)])
  else if b < 0xC2 then (none, [.bad 1])
  else if b < 0xE0 then (some ⟨1, b.toNat - 0xC0, 1, 0x80, 0xBF⟩, [])
  else if b < 0xF0 then
    let low := if b = 0xE0 then 0xA0 else 0x80
    let high := if b = 0xED then 0x9F else 0xBF
    (some ⟨1, b.toNat - 0xE0, 2, low, high⟩, [])
  else if b < 0xF5 then
    let low := if b = 0xF0 then 0x90 else 0x80
    let high := if b = 0xF4 then 0x8F else 0xBF
    (some ⟨1, b.toNat - 0xF0, 3, low, high⟩, [])
  else (none, [.bad 1])

/-- An octet after a character has begun, or between characters. -/
def step : Option Partial → UInt8 → Option Partial × List Piece
  | none, b => first b
  | some p, b =>
    if p.low ≤ b ∧ b ≤ p.high then
      let bits := p.bits * 64 + (b.toNat - 0x80)
      if p.lacking ≤ 1 then (none, [.char (Char.ofNat bits)])
      else (some ⟨p.seen + 1, bits, p.lacking - 1, 0x80, 0xBF⟩, [])
    else
      let (q, out) := first b
      (q, .bad p.seen :: out)

def advance (s : Option Partial × Array Piece) (b : UInt8) : Option Partial × Array Piece :=
  let (q, out) := step s.1 b
  (q, s.2 ++ out)

/-- The report on all the octets, with the character they leave unfinished. -/
def report (bytes : Bytes) : Option Partial × Array Piece := bytes.foldl advance (none, #[])

inductive Fault where
  /-- This many octets from this index on form no character. -/
  | invalid (length index : Nat)
  /-- The text ends within the character that starts at this index. -/
  | incomplete (index : Nat)
deriving Repr, DecidableEq

def Fault.message : Fault → String
  | .invalid n i => s!"invalid utf-8 sequence of {n} bytes from index {i}"
  | .incomplete i => s!"incomplete utf-8 byte sequence from index {i}"

/-- Octets before the first stretch that is no character, with that stretch's length. -/
def firstBad : Nat → List Piece → Nat × Option Nat
  | index, [] => (index, none)
  | index, .bad n :: _ => (index, some n)
  | index, .char c :: rest => firstBad (index + c.utf8Size) rest

/-- The character a piece stands for: an ill-formed stretch is read as U+FFFD. -/
def Piece.shown : Piece → Char
  | .char c => c
  | .bad _ => '\uFFFD'

def decode (bytes : Bytes) : Except Fault String :=
  let (open?, pieces) := report bytes
  match firstBad 0 pieces.toList, open? with
  | (index, some n), _ => .error (.invalid n index)
  | (index, none), some _ => .error (.incomplete index)
  | (_, none), none => .ok (String.ofList (pieces.toList.map Piece.shown))

/-- The text of any octets: each ill-formed stretch becomes one U+FFFD. -/
def decodeLossy (bytes : Bytes) : String :=
  let (open?, pieces) := report bytes
  let shown := pieces.toList.map Piece.shown
  String.ofList (if open?.isSome then shown ++ ['\uFFFD'] else shown)

end Utf8
end MapTables
