import MapTables.Text.Utf8

/-!
# Deliveries

Octets reach a reader in pieces, one for each time it asks, until they end or cannot be
read any further. With each piece goes the number of octets that were drawn from the
input to get it.
-/

namespace MapTables

structure Piece where
  octets : Bytes
  /-- Octets of the input that were drawn by then. -/
  drawn : Nat
deriving DecidableEq, Repr

structure Delivery where
  pieces : List Piece := []
  /-- Why there is no more, if that is not the end. -/
  failure : Option String := none
deriving DecidableEq, Repr

/-- The most octets that one question brings. -/
def blockSize : Nat := 8192

/-- Octets cut into blocks of a size, the last one possibly shorter, behind blocks that
are done. -/
def blocksFrom (size : Nat) (h : 0 < size) (done : Array Bytes) (bytes : Bytes) : Array Bytes :=
  match bytes with
  | [] => done
  | b :: rest => blocksFrom size h (done.push ((b :: rest).take size)) ((b :: rest).drop size)
termination_by bytes.length
decreasing_by simp only [List.length_drop, List.length_cons]; omega

def blocks (size : Nat) (bytes : Bytes) : List Bytes :=
  if h : 0 < size then (blocksFrom size h #[] bytes).toList else []

namespace Delivery

/-- Pieces of an input that is drawn as it is delivered, behind so many octets. -/
def counted (drawn : Nat) : List Bytes → List Piece
  | [] => []
  | b :: bs => ⟨b, drawn + b.length⟩ :: counted (drawn + b.length) bs

def octets (d : Delivery) : Bytes := d.pieces.flatMap Piece.octets

/-- Why there is no more of a delivery that was broken off. -/
def brokenOff : String := "injected read failure"

/-- Octets in pieces of a size. Reading fails after `failAfter` octets, if there are as many. -/
def ofBytes (bytes : Bytes) (chunk : Nat) (failAfter : Option Nat) : Delivery :=
  let size := min chunk blockSize
  match failAfter with
  | none => { pieces := counted 0 (blocks size bytes) }
  | some n =>
    { pieces := counted 0 (blocks size (bytes.take n))
      failure := if n ≤ bytes.length then some brokenOff else none }

def first (d : Delivery) : Bytes := (d.pieces.head?.map Piece.octets).getD []

def drawn (d : Delivery) : Nat := (d.pieces.getLast?.map Piece.drawn).getD 0

@[simp] theorem flatten_counted (n : Nat) (bs : List Bytes) :
    (counted n bs).flatMap Piece.octets = bs.flatten := by
  induction bs generalizing n with
  | nil => rfl
  | cons b bs ih => simp [counted, ih]

end Delivery

theorem flatten_blocksFrom (size : Nat) (h : 0 < size) (done : Array Bytes) (bytes : Bytes) :
    (blocksFrom size h done bytes).toList.flatten = done.toList.flatten ++ bytes := by
  fun_induction blocksFrom size h done bytes with
  | case1 => simp
  | case2 done b rest ih => rw [ih]; simp

/-- Cutting into blocks loses nothing. -/
theorem flatten_blocks (size : Nat) (h : 0 < size) (bytes : Bytes) :
    (blocks size bytes).flatten = bytes := by
  simp [blocks, h, flatten_blocksFrom]

end MapTables
