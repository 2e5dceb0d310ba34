import MapTables.Encoding.Declaration
import MapTables.Encoding.Decoder
import MapTables.Input.Delivery
import MapTables.Journal
import MapTables.Markup.Fault
import MapTables.Text.Blank

/-!
# Deliveries in UTF-8

A delivery in any encoding is turned into one in UTF-8. The encoding is the one that is
asked for, or else the one that the first piece tells. UTF-8 without a mark is passed on
as it is. All else is decoded piece by piece into buffers, which are the new pieces.
-/

namespace MapTables

namespace Encoding

/-- The encoding of a label that is given as a text; blanks around it do not count. -/
def ofText? (label : String) : Option Encoding := ofLabel? (Bytes.ofString (Text.trim label))

def mark : Encoding → Bytes
  | .utf8 => [0xEF, 0xBB, 0xBF]
  | .utf16LE => [0xFF, 0xFE]
  | .utf16BE => [0xFE, 0xFF]
  | _ => []

end Encoding

/-! ## Chunks -/

/-- Characters that are handed over at once, as much as a buffer takes. -/
structure Chunk where
  text : Array Char := #[]
  /-- Its octets in UTF-8. -/
  size : Nat := 0
  size_eq : (Bytes.ofChars text.toList).length = size := by rfl
  fits : size ≤ blockSize := by decide

namespace Chunk

def octets (c : Chunk) : Bytes := Bytes.ofChars c.text.toList

def push (b : Chunk) (c : Char) (room : b.size + c.utf8Size ≤ blockSize) : Chunk where
  text := b.text.push c
  size := b.size + c.utf8Size
  size_eq := by simp [Bytes.ofChars, ← b.size_eq]
  fits := room

def start (c : Char) : Chunk :=
  ({} : Chunk).push c (by have := c.utf8Size_le_four; simp only [blockSize]; omega)

end Chunk

/-- The octets that a decoder wants to be free for what may not be ASCII. -/
def Decoder.margin : Decoder → Nat
  | .utf8 _ => 0
  | .utf16 .. | .foreign .. => 4
  | _ => 3

/-- What the decoders leave open: how encodings are read that are not told here, and when a buffer
is handed over although the next character would fit. That character comes with an octet, or at
the end. -/
structure Codecs where
  foreign : Encoding → Foreign := fun _ => {}
  spares : Decoder → Option UInt8 → Chunk → Char → Bool := fun d _ b c =>
    blockSize < b.size + d.margin && !(c.toNat < 0x80 && b.text.back?.any (·.toNat < 0x80))

/-- A decoder that fills buffers. -/
structure Filling where
  decoder : Decoder
  full : Array Chunk := #[]
  buffer : Chunk := {}

namespace Filling

/-- A character goes to the buffer, or starts the next one. It is never divided. -/
def put (codecs : Codecs) (b : Option UInt8) (f : Filling) (c : Char) : Filling :=
  if h : f.buffer.size + c.utf8Size ≤ blockSize ∧
      (f.buffer.size = 0 ∨ codecs.spares f.decoder b f.buffer c = false) then
    { f with buffer := f.buffer.push c h.1 }
  else { f with full := f.full.push f.buffer, buffer := .start c }

def read (codecs : Codecs) (f : Filling) (b : UInt8) : Filling :=
  let (d, out) := f.decoder.step b
  { out.foldl (put codecs (some b)) f with decoder := d }

def readAll (codecs : Codecs) (d : Decoder) (bytes : Bytes) : Filling :=
  bytes.foldl (read codecs) { decoder := d }

/-- What is left unfinished at the end. -/
def ofFinish (codecs : Codecs) (d : Decoder) : Filling :=
  d.finish.foldl (put codecs none) { decoder := d }

def chunks (f : Filling) : Array Chunk :=
  if f.buffer.size = 0 then f.full else f.full.push f.buffer

/-- The chunks as pieces for which the same octets were drawn. -/
def pieces (f : Filling) (drawn : Nat) : Array Piece := f.chunks.map fun b => ⟨b.octets, drawn⟩

end Filling

/-! ## Pieces in UTF-8 -/

namespace Delivery

/-- The first octets, at most so many, with the octets of the input drawn for them, and the
pieces behind them. -/
def splitHead (n drawn : Nat) : List Piece → Bytes × Nat × List Piece
  | [] => ([], drawn, [])
  | p :: ps =>
    if p.octets.length < n then
      let (head, drawn, rest) := splitHead (n - p.octets.length) p.drawn ps
      (p.octets ++ head, drawn, rest)
    else (p.octets.take n, p.drawn, { p with octets := p.octets.drop n } :: ps)

/-- Pieces in UTF-8, behind those that are done, and the decoder after the last one. -/
def decodeFrom (codecs : Codecs) (d : Decoder) (done : Array Piece) :
    List Piece → Decoder × Array Piece
  | [] => (d, done)
  | p :: ps =>
    let f := Filling.readAll codecs d p.octets
    decodeFrom codecs f.decoder (done ++ f.pieces p.drawn) ps

def withoutMark (e : Encoding) (head : Bytes) : Bytes :=
  if e.mark.isPrefixOf head then head.drop e.mark.length else head

/-- How many octets are looked at for a mark. -/
def markLength : Nat := 3

/-- The delivery in UTF-8. Its first three octets are read at once; unless the encoding is
fixed, a mark in them overrides it. -/
def transcode (codecs : Codecs) (e : Encoding) (fixed : Bool) (d : Delivery) : Delivery :=
  let (head, drawn, rest) := splitHead markLength 0 d.pieces
  if head.length < markLength ∧ d.failure.isSome then { failure := d.failure } else
  let marked := if fixed ∨ head.length < markLength then none else Encoding.ofMark? head
  let e := marked.getD e
  let (decoder, pieces) :=
    decodeFrom codecs (.ofEncoding codecs.foreign e) #[] (⟨withoutMark e head, drawn⟩ :: rest)
  -- A character that a failure cuts off is dropped; at the end of an input it is ill-formed.
  let last := if d.failure.isSome then #[] else (Filling.ofFinish codecs decoder).pieces d.drawn
  { pieces := (pieces ++ last).toList, failure := d.failure }

/-- The encoding to read with: the one asked for by its label, or else the one that the
first piece tells. -/
def encoding (d : Delivery) (label : Option String) : Except ReadFault Encoding := do
  let fixed ← match label with
    | none => pure none
    | some l =>
      match Encoding.ofText? l with
      | some e => pure (some e)
      | none => .error (.unknownEncoding l)
  match d.pieces, d.failure with
  | [], some reason => .error (.unreadable 0 reason)
  | _, _ => return fixed.getD (Encoding.sniff d.first)

def toUtf8 (codecs : Codecs) (d : Delivery) (label : Option String) :
    Except ReadFault (Encoding × Delivery) := do
  let e ← d.encoding label
  if e = .utf8 ∧ Encoding.ofMark? d.first = none then return (e, d)
  else return (e, d.transcode codecs e label.isSome)

end Delivery
end MapTables
