import MapTables.Encoding.SingleByte
import MapTables.Text.Utf8

/-!
# Decoders

A decoder reads octets of an encoding one at a time and gives characters as soon as
they are known. What forms no character is read as U+FFFD.
-/

namespace MapTables

/-- A decoder that is given from outside. Its states are numbered, and it starts in the first. The
one that stands in where none is given knows ASCII only. -/
structure Foreign where
  step : Nat → UInt8 → Nat × List Char := fun s b => (s, [Encoding.tableChar #[] b])
  /-- The characters for what is left unfinished at the end. -/
  finish : Nat → List Char := fun _ => []

inductive Decoder where
  | utf8 (pending : Option Utf8.Partial)
  /-- The first octet of a unit, and the unit that starts a pair, where they have come. -/
  | utf16 (bigEndian : Bool) (octet : Option UInt8) (surrogate : Option Nat)
  | table (characters : Array Char)
  | userDefined
  /-- An encoding that is never read: its first octet stands for the whole text. -/
  | replacement (begun : Bool)
  | foreign (decoder : Foreign) (state : Nat)

namespace Decoder

/-- What forms no character. -/
def unknown : Char := '\uFFFD'

/-- The decoder at the start of a text. Of the encodings with several octets for a
character, UTF-8 and UTF-16 are read here; the decoders of the others are given. -/
def ofEncoding (foreign : Encoding → Foreign) (e : Encoding) : Decoder :=
  match e with
  | .utf8 => .utf8 none
  | .utf16LE => .utf16 false none none
  | .utf16BE => .utf16 true none none
  | .userDefined => .userDefined
  | .replacement => .replacement false
  | e => if e.isSingleByte then .table e.upperTable else .foreign (foreign e) 0

/-- A unit that starts a pair. -/
def isHighSurrogate (u : Nat) : Bool := 0xD800 ≤ u && u ≤ 0xDBFF

/-- A unit that ends a pair. -/
def isLowSurrogate (u : Nat) : Bool := 0xDC00 ≤ u && u ≤ 0xDFFF

/-- A unit of UTF-16 after none that starts a pair. -/
def freshUnit (u : Nat) : Option Nat × List Char :=
  if isHighSurrogate u then (some u, [])
  else if isLowSurrogate u then (none, [unknown])
  else (none, [Char.ofNat u])

def unit (pending : Option Nat) (u : Nat) : Option Nat × List Char :=
  match pending with
  | none => freshUnit u
  | some high =>
    if isLowSurrogate u then
      (none, [Char.ofNat (0x10000 + (high - 0xD800) * 0x400 + (u - 0xDC00))])
    else
      let (next, out) := freshUnit u
      (next, unknown :: out)

def unitOf (bigEndian : Bool) (a b : UInt8) : Nat :=
  if bigEndian then a.toNat * 256 + b.toNat else b.toNat * 256 + a.toNat

/-- One octet: the decoder after it and the characters it completes. -/
def step : Decoder → UInt8 → Decoder × List Char
  | .utf8 p, b =>
    let (q, out) := Utf8.step p b
    (.utf8 q, out.map Utf8.Piece.shown)
  | .utf16 big none s, b => (.utf16 big (some b) s, [])
  | .utf16 big (some a) s, b =>
    let (s, out) := unit s (unitOf big a b)
    (.utf16 big none s, out)
  | .table t, b => (.table t, [Encoding.tableChar t b])
  | .userDefined, b => (.userDefined, [Encoding.userDefinedChar b])
  | .replacement begun, _ => (.replacement true, if begun then [] else [unknown])
  | .foreign f s, b =>
    let (s, out) := f.step s b
    (.foreign f s, out)

/-- The characters for what is left unfinished at the end. -/
def finish : Decoder → List Char
  | .utf8 (some _) => [unknown]
  | .utf16 _ o s => if o.isSome || s.isSome then [unknown] else []
  | .foreign f s => f.finish s
  | _ => []

def advance (s : Decoder × Array Char) (b : UInt8) : Decoder × Array Char :=
  let (d, out) := s.1.step b
  (d, s.2 ++ out)

def run (d : Decoder) (bytes : Bytes) : Decoder × Array Char := bytes.foldl advance (d, #[])

def text (d : Decoder) (bytes : Bytes) : List Char :=
  let (d, out) := d.run bytes
  out.toList ++ d.finish

end Decoder

/-- The octets that write characters in UTF-8. -/
def Bytes.ofChars (cs : List Char) : Bytes := cs.flatMap String.utf8EncodeChar

end MapTables
