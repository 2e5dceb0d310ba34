import MapTables.Journal

/-!
# Watchers

A watcher of a run is told percentages and is asked, before each feature, whether to
stop.
-/

namespace MapTables

class Watcher (ω : Type) where
  /-- Takes a percentage; with the lines it writes. -/
  report : ω → Nat → ω × Journal
  poll : ω → Bool × ω

/-- A watcher that takes no notice and never stops a run. -/
structure Unwatched where
deriving DecidableEq, Repr

instance : Watcher Unwatched where
  report w _ := (w, #[])
  poll w := (false, w)

/-- A watcher that writes each new percentage and stops once it was cancelled. -/
structure Announcer where
  last : Option Nat := none
  cancelled : Bool := false
deriving DecidableEq, Repr

namespace Announcer

/-- A percentage is written unless it was the last one. -/
def report (w : Announcer) (percent : Nat) : Announcer × Journal :=
  if w.last = some percent then (w, #[])
  else ({ w with last := some percent }, #[Journal.info s!"ingestion {percent}% complete"])

def cancel (w : Announcer) : Announcer := { w with cancelled := true }

instance : Watcher Announcer where
  report := report
  poll w := (w.cancelled, w)

end Announcer

/-- A watcher that keeps what it is told. It stops a run from a poll on, or once it was
told a percentage. -/
structure Recorder where
  /-- Percentages in the order they came. -/
  steps : Array Nat := #[]
  polls : Nat := 0
  /-- Stop at this poll, counted from one, and at every later one. -/
  cancelAt : Option Nat := none
  /-- Stop once a percentage reached this one. -/
  cancelStep : Option Nat := none
deriving DecidableEq, Repr

namespace Recorder

def stops (w : Recorder) : Bool :=
  w.cancelAt.any (· ≤ w.polls) || w.cancelStep.any fun s => w.steps.any (s ≤ ·)

def report (w : Recorder) (percent : Nat) : Recorder × Journal :=
  ({ w with steps := w.steps.push percent }, #[])

def poll (w : Recorder) : Bool × Recorder :=
  let asked := { w with polls := w.polls + 1 }
  (asked.stops, asked)

instance : Watcher Recorder where
  report := report
  poll := poll

end Recorder
end MapTables
