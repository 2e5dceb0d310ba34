import MapTables.Folder.Path
import MapTables.Input.Delivery

/-!
# Containers

A map file is plain or packed; the end of its name tells how. What a file holds is given
unpacked, as the parts that were packed one by one.
-/

namespace MapTables

inductive Container where
  | plain
  | gzip
  | bzip2
deriving DecidableEq, Repr

structure FileContent where
  /-- How the parts are packed. -/
  packing : Container := .plain
  parts : List Bytes
  /-- Octets of the file. -/
  length : Nat
deriving DecidableEq, Repr

namespace FileContent

def ofBytes (bytes : Bytes) : FileContent := { parts := [bytes], length := bytes.length }

def octets (f : FileContent) : Bytes := f.parts.flatten

end FileContent

namespace Container

def word : Container → String
  | .plain => "Plain"
  | .gzip => "Gzip"
  | .bzip2 => "Bzip2"

/-- The ends of file names, the container of each beside it. -/
def endings : List (String × Container) :=
  [(".osm", .plain), (".osm.gz", .gzip), (".osm.bz2", .bzip2)]

/-- Whether a name ends in an ending, ASCII case ignored. -/
def endsIn (name ending : String) : Bool :=
  ending.toList.isSuffixOf (name.toList.map Char.toLower)

def ofFileName? (name : String) : Option Container :=
  (endings.find? fun e => endsIn name e.1).map Prod.snd

def ofPath? (path : String) : Option Container := (Path.fileName? path).bind ofFileName?

/-- Pieces of parts that were packed one by one, all drawn as soon as the first is read. -/
def unpacked (f : FileContent) : List Piece :=
  (f.parts.flatMap (blocks blockSize)).map fun b => ⟨b, f.length⟩

/-- What is wrong with a file that was not packed in the expected way. -/
def badHeader (c : Container) (f : FileContent) : String :=
  let empty := f.length = 0
  match c with
  | .plain => ""
  | .gzip => if empty then "unexpected end of file" else "invalid gzip header"
  | .bzip2 =>
    if empty then "decompression not finished but EOF reached" else "bzip2: bz2 header missing"

/-- What reading a file through a container delivers. -/
def deliver (c : Container) (f : FileContent) : Delivery :=
  if c = .plain then { pieces := Delivery.counted 0 (blocks blockSize f.octets) }
  else if c = f.packing ∧ f.length ≠ 0 then { pieces := unpacked f }
  else { failure := some (badHeader c f) }

end Container
end MapTables
