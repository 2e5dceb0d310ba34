import MapTables.Progress.Watcher

/-!
# Progress of a run

The monitor counts closed features and, once in an interval, asks how many octets were
drawn from the input. The interval is such that about a hundred questions are asked. An
input of unknown length is never asked about.
-/

namespace MapTables

/-- How many octets were drawn from the input. The answer may depend on how often it was
asked before and on the octets that the reader took so far. -/
structure Gauge where
  read : (asked drawn : Nat) → Except String Nat

/-- The octets that the reader took. -/
def Gauge.ofReader : Gauge := ⟨fun _ drawn => .ok drawn⟩

/-- A gauge that gives prepared answers, the last one for ever; `none` is a failure. -/
def Gauge.ofList (answers : List (Option Nat)) : Gauge :=
  ⟨fun asked _ =>
    match answers[min asked (answers.length - 1)]?.join with
    | some n => .ok n
    | none => .error "no position"⟩

structure Monitor where
  /-- Octets of the whole input; zero when unknown. -/
  total : Nat
  /-- Features between two questions. -/
  interval : Nat
  closed : Nat := 0
  /-- Questions asked so far. -/
  asked : Nat := 0
deriving DecidableEq, Repr

structure Sampled (ω : Type) where
  monitor : Monitor
  watcher : ω
  lines : Journal := #[]
  percent : Option Nat := none

namespace Monitor

def ofTotal (total average : Nat) : Monitor := { total, interval := max 1 (total / average / 100) }

/-- The share of the input before an offset, at most a hundred. -/
def percent (m : Monitor) (offset : Nat) : Option Nat :=
  if m.total = 0 then none else some (min 100 (offset * 100 / m.total))

def due (m : Monitor) : Bool := m.total ≠ 0 && m.closed % m.interval == 0

variable {ω : Type} [Watcher ω]

def featureClosed (m : Monitor) (gauge : Gauge) (drawn : Nat) (w : ω) : Sampled ω :=
  let counted := { m with closed := m.closed + 1 }
  if counted.due then
    -- A question counts even if it is not answered.
    let asked := { counted with asked := counted.asked + 1 }
    match gauge.read counted.asked drawn with
    | .error reason =>
      { monitor := asked, watcher := w
        lines := #[Journal.debug s!"skipping progress sample: {reason}"] }
    | .ok offset =>
      match m.percent offset with
      | none => { monitor := asked, watcher := w }
      | some p =>
        let (w, lines) := Watcher.report w p
        { monitor := asked, watcher := w, lines, percent := some p }
  else { monitor := counted, watcher := w }

def finish (m : Monitor) (w : ω) : ω × Journal :=
  if m.total = 0 then (w, #[]) else Watcher.report w 100

theorem interval_pos (total average : Nat) : 1 ≤ (ofTotal total average).interval :=
  Nat.le_max_left 1 _

theorem percent_le {m : Monitor} {offset p : Nat} (h : m.percent offset = some p) : p ≤ 100 := by
  unfold percent at h
  split at h
  · simp at h
  · simp only [Option.some.injEq] at h
    omega

end Monitor
end MapTables
