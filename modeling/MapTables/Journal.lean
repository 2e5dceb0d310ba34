/-!
# The journal of a run

Lines that tell what a run did, in order, each with a level. A reader of the journal
asks for a level and sees the lines at that level or above.
-/

namespace MapTables

inductive Level where
  | debug
  | info
  | warn
deriving DecidableEq, Repr

def Level.rank : Level → Nat
  | .debug => 0
  | .info => 1
  | .warn => 2

structure Line where
  level : Level
  text : String
deriving DecidableEq, Repr

abbrev Journal := Array Line

namespace Journal

def debug (text : String) : Line := ⟨.debug, text⟩
def info (text : String) : Line := ⟨.info, text⟩
def warn (text : String) : Line := ⟨.warn, text⟩

def atLeast (j : Journal) (level : Level) : Journal :=
  j.filter fun l => level.rank ≤ l.level.rank

end Journal
end MapTables
