import MapTables.Input.Delivery
import MapTables.Markup.Construct

/-!
# Documents

A document is read from its first octet to its last. Text is passed over, and so are
elements that carry no map data, but their end tags must match. What is left are the
events, each with the position it was read at.
-/

namespace MapTables

/-- An event, or why there is none, with the position of the reader. -/
structure Item where
  what : Except ReadFault Event
  position : Nat
  /-- Octets of the input that were drawn by then. -/
  drawn : Nat

structure Transcript where
  items : List Item
  /-- Where the reader stands in the end. -/
  position : Nat
  /-- The last fault comes again each time the reader is asked. -/
  stuck : Bool := false

namespace Markup

structure Source where
  octets : Bytes
  ends : List (Nat × Nat)
  failure : Option String

/-- The octets that mark a text as UTF-8. -/
def utf8Mark : Bytes := [0xEF, 0xBB, 0xBF]

/-- The pieces without a mark at the start of the first one. -/
def withoutMark : List Piece → List Piece
  | [] => []
  | p :: ps => (if utf8Mark.isPrefixOf p.octets then { p with octets := p.octets.drop 3 } else p) :: ps

/-- Where pieces end that follow so many octets. -/
def endsFrom (offset : Nat) : List Piece → List (Nat × Nat)
  | [] => []
  | p :: ps => (offset + p.octets.length, p.drawn) :: endsFrom (offset + p.octets.length) ps

def Source.ofDelivery (d : Delivery) : Source :=
  let pieces := withoutMark d.pieces
  ⟨pieces.flatMap Piece.octets, endsFrom 0 pieces, d.failure⟩

structure Cursor where
  rest : Bytes
  offset : Nat := 0
  /-- Names of the open elements, the innermost first. -/
  openNames : List Bytes := []
  /-- Where the pieces end that are not used up. -/
  ends : List (Nat × Nat)
  done : Array Item := #[]

/-- Octets drawn once the reader took so many; all of them when none are left to take. -/
def drawnAt (ends : List (Nat × Nat)) (offset : Nat) (rest : Bytes) : Nat :=
  if rest.isEmpty then (ends.getLast?.map Prod.snd).getD 0
  else ((ends.find? fun e => offset ≤ e.1).map Prod.snd).getD 0

/-- The text of octets that are only shown; none if they are no text. -/
def shown (bytes : Bytes) : String :=
  match Utf8.decode bytes with
  | .ok s => s
  | .error _ => ""

/-- The octets without spaces at their end, unless there is nothing else. -/
def trimEnd (bytes : Bytes) : Bytes :=
  match bytes.reverse.dropWhile Tag.isSpace with
  | [] => bytes
  | r => r.reverse

structure Effect where
  openNames : List Bytes
  events : List Event := []
  /-- A fault that does not end the reading. -/
  fault : Option MarkupFault := none

/-- The events of a tag whose name has so many octets. -/
def elementEvents (name content : Bytes) (empty : Bool) : Except MarkupFault (List Event) :=
  match Element.ofName? (Tag.localName name) with
  | none => .ok []
  | some e =>
    (Tag.attributes content name.length).map fun a =>
      if empty then [.start e a, .close e] else [.start e a]

/-- A tag. One that ends in `/` is an element without content. -/
def openTag (names : List Bytes) (content : Bytes) : Effect :=
  let empty := content.getLast? == some 0x2F
  let inner := if empty then content.dropLast else content
  let name := inner.takeWhile fun b => !Tag.isSpace b
  let openNames := if empty then names else name :: names
  match elementEvents name inner empty with
  | .ok events => { openNames, events }
  | .error fault => { openNames, fault := some fault }

/-- An end tag, with its leading slash. It must close the innermost open element. -/
def closeTag (names : List Bytes) (content : Bytes) : Except MarkupFault Effect :=
  let name := trimEnd content.tail
  match names with
  | [] => .error (.mismatchedEnd "" (shown content.tail))
  | expected :: names =>
    if name = expected then
      .ok { openNames := names, events := ((Element.ofName? (Tag.localName name)).map .close).toList }
    else .error (.mismatchedEnd (shown expected) (shown name))

/-- What a construct yields, or a fault and how far before the construct's end it lies. -/
def effect (names : List Bytes) : Part → Except (Nat × MarkupFault) Effect
  | .passed => .ok { openNames := names }
  | .opens content => .ok (openTag names content)
  | .closes content => (closeTag names content).mapError fun f => (content.length, f)

def Effect.items (e : Effect) (position drawn : Nat) : List Item :=
  match e.fault with
  | some fault => [⟨.error (.markup position fault), position, drawn⟩]
  | none => e.events.map fun event => ⟨.ok event, position, drawn⟩

def Cursor.halt (c : Cursor) (fault : ReadFault) (position : Nat) : Transcript :=
  { items := (c.done.push ⟨.error fault, position, 0⟩).toList, position }

def isText (b : UInt8) : Bool := b != 0x3C

def Cursor.read (failure : Option String) (c : Cursor) : Transcript :=
  let start := c.offset + (c.rest.takeWhile isText).length
  match h : c.rest.dropWhile isText with
  | [] =>
    match failure with
    | some reason => c.halt (.unreadable start reason) start
    | none => { items := c.done.toList, position := start }
  | _ :: [] =>
    -- A `<` with nothing behind it is the end of the input, and no fault of its own.
    match failure with
    | some reason => c.halt (.unreadable (start + 1) reason) (start + 1)
    | none => { items := c.done.toList, position := start + 1 }
  | _ :: b :: more =>
    let offset := start + 1
    let ends := c.ends.dropWhile fun e => e.1 ≤ offset
    match Markup.take failure.isSome (ends.map Prod.fst) offset (b :: more) with
    | .error (.malformed p fault) => c.halt (.markup (offset + p) fault) (offset + p)
    | .error (.starved p) => c.halt (.unreadable (offset + p) (failure.getD "")) (offset + p)
    | .ok taken =>
      let position := offset + taken.advance
      match effect c.openNames taken.part with
      | .error (back, fault) => c.halt (.markup (position - back) fault) (position - back)
      | .ok e =>
        have : taken.rest.length < c.rest.length := by
          have h1 := Escape.length_dropWhile_le isText c.rest
          have h2 := taken.notLonger
          rw [h] at h1
          simp only [List.length_cons] at h1 h2
          omega
        Cursor.read failure {
          rest := taken.rest, offset := position, openNames := e.openNames, ends
          done := c.done ++ e.items position (drawnAt ends position taken.rest) }
termination_by c.rest.length

end Markup

/-- Reads a document. One whose first octet cannot be read stays that way. -/
def Transcript.ofDelivery (d : Delivery) : Transcript :=
  match d.pieces, d.failure with
  | [], some reason => { items := [⟨.error (.unreadable 0 reason), 0, 0⟩], position := 0, stuck := true }
  | _, _ =>
    let s := Markup.Source.ofDelivery d
    Markup.Cursor.read s.failure { rest := s.octets, ends := s.ends }

end MapTables
