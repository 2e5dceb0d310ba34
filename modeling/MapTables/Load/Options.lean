/-!
# Options of a load
-/

namespace MapTables

structure Options where
  /-- Rows of a table that are kept back before they are stored together. -/
  batchSize : Nat := 8000
  /-- Octets that a feature takes up on the average. -/
  averageFeature : Nat := 500
  /-- The label of an encoding that overrides what the input says of itself. -/
  encoding : Option String := none
  /-- Tables of the same names are dropped first. -/
  dropExisting : Bool := false
  batchSize_pos : 0 < batchSize := by decide
  averageFeature_pos : 0 < averageFeature := by decide
deriving DecidableEq, Repr

namespace Options

/-- Options with another batch size, or none for zero. -/
def withBatchSize? (o : Options) (n : Nat) : Option Options :=
  if h : 0 < n then some { o with batchSize := n, batchSize_pos := h } else none

def withAverageFeature? (o : Options) (n : Nat) : Option Options :=
  if h : 0 < n then some { o with averageFeature := n, averageFeature_pos := h } else none

def withEncoding (o : Options) (label : String) : Options := { o with encoding := some label }

def withDropExisting (o : Options) (drop : Bool) : Options := { o with dropExisting := drop }

end Options
end MapTables
