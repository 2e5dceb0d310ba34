import MapTables.Input.Delivery

/-!
# Sources

A source is read on request and counts the octets that were drawn from it. It may be made
to fail after a number of octets.
-/

namespace MapTables

structure Source where
  rest : Bytes
  /-- The most octets that a read brings. -/
  chunk : Nat
  left : Option Nat := none
  drawn : Nat := 0
deriving DecidableEq, Repr

namespace Source

/-- Reads at most so many octets. A failed read draws none. -/
def read (s : Source) (size : Nat) : Except String Bytes × Source :=
  if s.left = some 0 then (.error Delivery.brokenOff, s) else
  let got := s.rest.take (min size (min s.chunk (s.left.getD s.rest.length)))
  (.ok got, {
    rest := s.rest.drop got.length
    chunk := s.chunk
    left := s.left.map (· - got.length)
    drawn := s.drawn + got.length })

/-- What was drawn and what is to come make up the same whole after a read. -/
theorem drawn_read (s : Source) (size : Nat) :
    (s.read size).2.drawn + (s.read size).2.rest.length = s.drawn + s.rest.length := by
  unfold read
  split
  · rfl
  · simp only [List.length_drop, List.length_take]
    omega

end Source
end MapTables
