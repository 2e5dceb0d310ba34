import MapTables.Proofs.Load.Flush
import MapTables.Proofs.Load.Plain

/-!
# A load under way

Between two items the load is as far as the plain assembly of the items before, and each
table has what was enqueued up to some closing of a feature. A load that ends early
leaves the tables so, and ends as the plain one does, unless it was stopped.
-/

namespace MapTables

/-! ## Watchers that stop a load -/

/-- The states a watcher comes to when it is told and asked. -/
inductive Watcher.Reaches {ω : Type} [Watcher ω] (w : ω) : ω → Prop
  | start : Reaches w w
  | told {v : ω} (percent : Nat) (h : Reaches w v) : Reaches w (Watcher.report v percent).1
  | asked {v : ω} (h : Reaches w v) : Reaches w (Watcher.poll v).2

def Watcher.MayStop {ω : Type} [Watcher ω] (w : ω) : Prop :=
  ∃ v, Watcher.Reaches w v ∧ (Watcher.poll v).1 = true

section

variable {ω : Type} [Watcher ω] {w v : ω}

theorem Watcher.Reaches.sampled (h : Watcher.Reaches w v) (m : Monitor) (gauge : Gauge)
    (drawn : Nat) : Watcher.Reaches w (m.featureClosed gauge drawn v).watcher := by
  unfold Monitor.featureClosed
  simp only
  split
  · split
    · exact h
    · split
      · exact h
      · exact .told _ h
  · exact h

end

/-! ## Tables cut at closings -/

/-- Each table was given the rows up to one of the first `n` closings. -/
def AtClosings (events : List Event) (n : Nat) (done : TableKind → List Row) : Prop :=
  ∀ k, ∃ m ≤ n, done k = rowsFor k (({} : Assembler).rowsToClosing m events)

variable {events : List Event} {n : Nat} {rows done done' : TableKind → List Row}

theorem atClosings_nil : AtClosings events n fun _ => [] :=
  fun _ => ⟨0, Nat.zero_le n, by simp⟩

theorem AtClosings.mono {n' : Nat} (h : AtClosings events n done) (hn : n ≤ n') :
    AtClosings events n' done := by
  intro k
  obtain ⟨m, hm, he⟩ := h k
  exact ⟨m, Nat.le_trans hm hn, he⟩

theorem AtClosings.between (h : AtClosings events n done) (hr : AtClosings events n rows)
    (hb : Between rows done done') : AtClosings events n done' := by
  intro k
  rcases hb k with he | he
  · rw [he]; exact h k
  · rw [he]; exact hr k

theorem atClosings_of_takeAll {a : Assembler} {R : List Placed} {before after : List Item}
    (h : ({} : Assembler).takeAll before = .ok (a, R)) (hn : a.openFeature = none) :
    AtClosings (eventsOf (before ++ after)) a.counts.features fun k => rowsFor k R := by
  have hrun := Assembler.run_of_takeAll h
  have hle := Assembler.features_le_of_run hrun
  refine fun k => ⟨a.counts.features, Nat.le_refl _, ?_⟩
  rw [Assembler.eventsOf_append h, Assembler.rowsToClosing_append hrun (Nat.le_of_eq ?_)]
  · have := Assembler.rowsToClosing_of_run hrun hn
    simp only [Counts.features, Nat.add_zero, Nat.sub_zero] at this ⊢
    rw [this]
  · simp only [Counts.features, Nat.add_zero, Nat.zero_add]

/-! ## The invariant -/

variable {σ ω : Type} {view : σ → Memory} {refusing : Prop} {d : Dataset} [Watcher ω] {w : ω}
  {items before after : List Item}

/-- The load of the items so far. -/
structure Underway (view : σ → Memory) (refusing : Prop) (d : Dataset) (w : ω)
    (items before : List Item) (R : List Placed) (done : TableKind → List Row)
    (l : Load σ ω) : Prop where
  taken : ({} : Assembler).takeAll before = .ok (l.assembler, R)
  cut : AtClosings (eventsOf items) l.assembler.counts.features done
  balanced : Balanced view refusing d (rowsFor · R) done l.writing
  watched : Watcher.Reaches w l.watcher

def Taken (view : σ → Memory) (refusing : Prop) (d : Dataset) (w : ω) (items before : List Item)
    (l : Load σ ω) : Prop :=
  ∃ R done, Underway view refusing d w items before R done l

/-- What a load leaves that ended early. -/
def Ended (view : σ → Memory) (refusing : Prop) (d : Dataset) (w : ω) (items : List Item)
    (f : LoadFault) (l : Load σ ω) : Prop :=
  (∃ done, AtClosings (eventsOf items) l.assembler.counts.features done ∧
    Holds d done (view l.writing.store)) ∧
  (assembled items = .error f ∨ refusing ∨ Watcher.MayStop w)

namespace Underway

variable {R : List Placed} {l l' : Load σ ω}

theorem of_eq (h : Underway view refusing d w items before R done l)
    (ha : l'.assembler = l.assembler) (hw : Watcher.Reaches w l'.watcher)
    (hwr : l'.writing.writer = l.writing.writer) (hs : l'.writing.store = l.writing.store) :
    Underway view refusing d w items before R done l' :=
  ⟨by rw [ha]; exact h.taken, by rw [ha]; exact h.cut, h.balanced.of_eq hwr (by rw [hs]), hw⟩

theorem ended {f : LoadFault} (h : Underway view refusing d w items before R done l)
    (hf : assembled items = .error f ∨ refusing ∨ Watcher.MayStop w) :
    Ended view refusing d w items f l :=
  ⟨⟨done, h.cut, h.balanced.holds⟩, hf⟩

end Underway

theorem Taken.of_eq {l l' : Load σ ω} (h : Taken view refusing d w items before l)
    (ha : l'.assembler = l.assembler) (hw : Watcher.Reaches w l'.watcher)
    (hwr : l'.writing.writer = l.writing.writer) (hs : l'.writing.store = l.writing.store) :
    Taken view refusing d w items before l' := by
  obtain ⟨R, done, h⟩ := h
  exact ⟨R, done, h.of_eq ha hw hwr hs⟩

theorem Taken.watched {l : Load σ ω} (h : Taken view refusing d w items before l) :
    Watcher.Reaches w l.watcher := by
  obtain ⟨R, done, h⟩ := h
  exact h.watched

theorem Ended.of_eq {f : LoadFault} {l l' : Load σ ω} (h : Ended view refusing d w items f l)
    (ha : l'.assembler = l.assembler) (hs : view l'.writing.store = view l.writing.store) :
    Ended view refusing d w items f l' := by
  unfold Ended at h ⊢
  rw [ha, hs]
  exact h

end MapTables
