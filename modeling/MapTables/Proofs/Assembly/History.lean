import Mathlib.Data.List.Induction
import MapTables.Proofs.Assembly.Dispatch

/-!
# Histories

What an assembler was sent and what it answered, refusals included. A refused event changes
nothing and is asked no more than that; what holds at the start and is kept by each accepted event
holds after every sequence.
-/

namespace MapTables

def Event.feature? : Event → Option (FeatureKind × Attributes)
  | .start e attributes => e.feature?.map (·, attributes)
  | .close _ => none

structure Answered where
  before : Assembler
  event : Event
  answer : Except AssemblyFault Change

namespace Answered

def isAccepted (x : Answered) : Bool := x.answer.isOk

def opens (x : Answered) : Bool :=
  match x.answer with
  | .ok (.opened _) => true
  | _ => false

def closes (x : Answered) : Bool :=
  match x.answer with
  | .ok change => change.closes
  | .error _ => false

def starts (e : Element) (x : Answered) : Bool :=
  match x.event with
  | .start e' _ => e' = e && x.isAccepted
  | .close _ => false

/-- The feature that was opened, as its opening tag has it. -/
def opening? (x : Answered) : Option (FeatureKind × Attributes) :=
  if x.isAccepted then x.event.feature? else none

/-- The feature that was open when another one was opened. -/
def replaced? (x : Answered) : Option Feature := if x.opens then x.before.openFeature else none

end Answered

def replaced (H : List Answered) : List Feature := H.filterMap Answered.replaced?

theorem replaced_append (H G : List Answered) : replaced (H ++ G) = replaced H ++ replaced G :=
  List.filterMap_append

namespace Assembling

variable {κ : Type} [RowSink κ]

def history (w : Assembling κ) : List Event → List Answered
  | [] => []
  | e :: es => ⟨w.assembler, e, (dispatch e w).1⟩ :: (dispatch e w).2.history es

def blank : Assembling (Array Placed) := { assembler := {}, sink := #[] }

variable {w : Assembling κ} {e : Event} {s : Step}

theorem dispatchAll_cons (w : Assembling κ) (e : Event) (es : List Event) :
    w.dispatchAll (e :: es) = ((dispatch e w).1 :: ((dispatch e w).2.dispatchAll es).1,
      ((dispatch e w).2.dispatchAll es).2) :=
  rfl

theorem history_append (w : Assembling κ) (es fs : List Event) :
    w.history (es ++ fs) = w.history es ++ (w.dispatchAll es).2.history fs := by
  induction es generalizing w with
  | nil => rfl
  | cons e es ih => simp only [List.cons_append, history, ih, dispatchAll_cons]

theorem events_history (w : Assembling κ) (es : List Event) :
    (w.history es).map Answered.event = es := by
  induction es generalizing w with
  | nil => rfl
  | cons e es ih => simp only [history, List.map_cons, ih]

theorem answers_history (w : Assembling κ) (es : List Event) :
    (w.history es).map Answered.answer = (w.dispatchAll es).1 := by
  induction es generalizing w with
  | nil => rfl
  | cons e es ih => simp only [history, List.map_cons, ih, dispatchAll_cons]

def take (w : Assembling κ) (s : Step) : Assembling κ :=
  ⟨s.next, s.rows.foldl RowSink.enqueue w.sink, w.lines ++ s.note.toArray⟩

theorem dispatch_of_step (h : w.assembler.step e = .ok s) :
    dispatch e w = (.ok s.change, w.take s) := by
  rw [dispatch_run, h]
  rfl

theorem dispatch_of_fault {fault : AssemblyFault} (h : w.assembler.step e = .error fault) :
    dispatch e w = (.error fault, w) := by
  rw [dispatch_run, h]
  rfl

theorem takes_of_mem_history {es : List Event} {x : Answered} (hx : x ∈ w.history es)
    (h : x.isAccepted = true) : ∃ s, x.before.Takes x.event s ∧ x.answer = .ok s.change := by
  induction es generalizing w with
  | nil => cases hx
  | cons e es ih =>
    rcases List.mem_cons.mp hx with rfl | hx
    · cases hs : w.assembler.step e with
      | error fault =>
        rw [dispatch_of_fault hs] at h
        cases h
      | ok s => exact ⟨s, Assembler.takes_of_step hs, by rw [dispatch_of_step hs]⟩
    · exact ih hx

theorem toList_enqueueAll (sink : Array Placed) (rows : List Placed) :
    (rows.foldl RowSink.enqueue sink).toList = sink.toList ++ rows := by
  induction rows generalizing sink with
  | nil => simp
  | cons r rows ih =>
    rw [List.foldl_cons, ih]
    simp [RowSink.enqueue]

/-- What holds at the start and is kept by every event, refused or accepted, holds of each history,
of the assembler after it and of the rows that it has made. -/
theorem history_induction {P : List Answered → Assembler → List Placed → Prop} (start : P [] {} [])
    (refused : ∀ H a R e fault, P H a R → a.step e = .error fault →
      P (H ++ [⟨a, e, .error fault⟩]) a R)
    (accepted : ∀ H a R e s, P H a R → a.Takes e s →
      P (H ++ [⟨a, e, .ok s.change⟩]) s.next (R ++ s.rows)) (es : List Event) :
    P (blank.history es) (blank.dispatchAll es).2.assembler
      (blank.dispatchAll es).2.sink.toList := by
  induction es using List.reverseRecOn with
  | nil => exact start
  | append_singleton es e ih =>
    rw [history_append, dispatchAll_append]
    simp only [history, dispatchAll]
    cases hs : (blank.dispatchAll es).2.assembler.step e with
    | error fault =>
      rw [dispatch_of_fault hs]
      exact refused _ _ _ _ _ ih hs
    | ok s =>
      rw [dispatch_of_step hs]
      have h := accepted _ _ _ _ _ ih (Assembler.takes_of_step hs)
      rwa [← toList_enqueueAll] at h

end Assembling
end MapTables
