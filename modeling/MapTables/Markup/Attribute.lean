import MapTables.Markup.Element
import MapTables.Markup.Escape

/-!
# Attributes of a tag

Behind its name a tag has attributes: a key, `=`, and a value between quotes, with
spaces around each of them where one likes. No key comes twice.
-/

namespace MapTables.Tag

def isSpace (b : UInt8) : Bool := b == 0x20 || b == 0x09 || b == 0x0A || b == 0x0D

structure RawAttribute where
  key : Bytes
  /-- Where the key starts, counted from just after the tag's `<`. -/
  position : Nat
  value : Bytes
deriving DecidableEq, Repr

structure Found (within : Bytes) where
  raw : RawAttribute
  position : Nat
  rest : Bytes
  shorter : rest.length < within.length

/-- What stands in front of a value: the `=` behind a key, with its position. -/
def equals? (length position : Nat) (cs : Bytes) :
    Except AttributeFault (Nat × { r : Bytes // r.length < cs.length }) :=
  match h : cs.dropWhile isSpace with
  | [] => .error (.expectedEquals length)
  | c :: rest =>
    let spaces := (cs.takeWhile isSpace).length
    if c = 0x3D then
      .ok (position + spaces, ⟨rest, by
        have := Escape.length_dropWhile_le isSpace cs
        rw [h] at this
        exact this⟩)
    else .error (.expectedEquals (position + spaces))

def quoted? (length position : Nat) (cs : Bytes) :
    Except AttributeFault (Bytes × Nat × { r : Bytes // r.length < cs.length }) :=
  match h : cs.dropWhile isSpace with
  | [] => .error (.expectedValue length)
  | q :: rest =>
    let start := position + (cs.takeWhile isSpace).length
    if q = 0x22 ∨ q = 0x27 then
      match h' : rest.dropWhile (· != q) with
      | [] => .error (.expectedQuote length q)
      | _ :: after =>
        let value := rest.takeWhile (· != q)
        .ok (value, start + 1 + value.length + 1, ⟨after, by
          have h1 := Escape.length_dropWhile_le isSpace cs
          have h2 := Escape.length_dropWhile_le (· != q) rest
          rw [h] at h1
          rw [h'] at h2
          simp only [List.length_cons] at h1 h2
          omega⟩)
    else .error (.unquotedValue start)

def isKeyOctet (b : UInt8) : Bool := b != 0x3D && !isSpace b

def next? (length : Nat) (seen : List RawAttribute) (position : Nat) (cs : Bytes) :
    Except AttributeFault (Option (Found cs)) :=
  match h : cs.dropWhile isSpace with
  | [] => .ok none
  | k :: rest => do
    let start := position + (cs.takeWhile isSpace).length
    let key := k :: rest.takeWhile isKeyOctet
    let (equals, ⟨value, hv⟩) ← equals? length (start + key.length) (rest.dropWhile isKeyOctet)
    -- A key that comes twice is found before its second value is looked at.
    match seen.find? fun a => a.key == key with
    | some previous => .error (.duplicated start previous.position)
    | none =>
      let (text, after, ⟨rest', hr⟩) ← quoted? length (equals + 1) value
      return some ⟨⟨key, start, text⟩, after, rest', by
        have h1 := Escape.length_dropWhile_le isSpace cs
        have h2 := Escape.length_dropWhile_le isKeyOctet rest
        rw [h] at h1
        simp only [List.length_cons] at h1
        omega⟩

/-- What follows the first colon of a name, or the whole name without one. -/
def localName (name : Bytes) : Bytes :=
  match name.dropWhile (· != 0x3A) with
  | [] => name
  | _ :: rest => rest

def valueText (value : Bytes) : Except MarkupFault String :=
  match Utf8.decode value with
  | .error f => .error (.malformedText f)
  | .ok text =>
    match Escape.unescape text with
    | .error f => .error (.escape f)
    | .ok text => .ok text

/-- The attributes behind a position, after those that were seen. -/
def attributesFrom (length : Nat) (seen : List RawAttribute) (done : Array (String × String))
    (position : Nat) (cs : Bytes) : Except MarkupFault (Array (String × String)) :=
  match next? length seen position cs with
  | .error f => .error (.attribute f)
  | .ok none => .ok done
  | .ok (some found) =>
    match valueText found.raw.value with
    | .error f => .error f
    | .ok text =>
      have := found.shorter
      attributesFrom length (found.raw :: seen)
        (done.push (Utf8.decodeLossy (localName found.raw.key), text)) found.position found.rest
termination_by cs.length

/-- The attributes in a tag's content, behind a name of so many octets. -/
def attributes (content : Bytes) (nameLength : Nat) : Except MarkupFault Attributes :=
  (attributesFrom content.length [] #[] nameLength (content.drop nameLength)).map Array.toList

end MapTables.Tag
