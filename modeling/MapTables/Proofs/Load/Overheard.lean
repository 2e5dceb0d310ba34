import MapTables.Proofs.Load.Beside

/-!
# Watchers that are overheard

Any watcher can be overheard: its answers are written down. It can be held back as well. Then
it is told and asked as before, but none of its answers stops a load.
-/

namespace MapTables

structure Overheard (ω : Type) where
  watcher : ω
  answers : List Bool := []
  heldBack : Bool := false

namespace Overheard

variable {ω : Type} [Watcher ω]

def report (v : Overheard ω) (percent : Nat) : Overheard ω × Journal :=
  let (watcher, lines) := Watcher.report v.watcher percent
  ({ v with watcher }, lines)

def poll (v : Overheard ω) : Bool × Overheard ω :=
  let (stop, watcher) := Watcher.poll v.watcher
  (stop && !v.heldBack, { v with watcher, answers := v.answers ++ [stop] })

instance : Watcher (Overheard ω) := ⟨report, poll⟩

theorem featureClosed_heard (v : Overheard ω) (m : Monitor) (gauge : Gauge) (drawn : Nat) :
    (m.featureClosed gauge drawn v).watcher.answers = v.answers ∧
      (m.featureClosed gauge drawn v).watcher.heldBack = v.heldBack := by
  unfold Monitor.featureClosed
  simp only
  split
  · split
    · exact ⟨rfl, rfl⟩
    · split <;> exact ⟨rfl, rfl⟩
  · exact ⟨rfl, rfl⟩

theorem finish_heard (v : Overheard ω) (m : Monitor) :
    (m.finish v).1.answers = v.answers ∧ (m.finish v).1.heldBack = v.heldBack := by
  unfold Monitor.finish
  split <;> exact ⟨rfl, rfl⟩

def hold (held : Bool) (v : Overheard ω) : Overheard ω := { v with heldBack := held }

theorem featureClosed_hold (held : Bool) (v : Overheard ω) (m : Monitor) (gauge : Gauge)
    (drawn : Nat) : m.featureClosed gauge drawn (v.hold held) =
      { m.featureClosed gauge drawn v with
        watcher := (m.featureClosed gauge drawn v).watcher.hold held } := by
  unfold Monitor.featureClosed
  simp only
  split
  · split
    · rfl
    · split <;> rfl
  · rfl

theorem finish_hold (held : Bool) (v : Overheard ω) (m : Monitor) :
    m.finish (v.hold held) = ((m.finish v).1.hold held, (m.finish v).2) := by
  unfold Monitor.finish
  split <;> rfl

def unison (ω : Type) [Watcher ω] (gauge : Gauge) : Unison ω (Overheard ω) gauge gauge Eq where
  agree m w m' v := m' = m ∧ v.watcher = w ∧ v.heldBack = false
  partner m w := ⟨m, ⟨w, [], false⟩, rfl, rfl, rfl⟩
  poll := by
    rintro m _ _ v ⟨rfl, rfl, h⟩
    refine ⟨?_, rfl, rfl, h⟩
    change ((Watcher.poll v.watcher).1 && !v.heldBack) = _
    rw [h, Bool.not_false, Bool.and_true]
  count := by
    rintro m _ _ v n _ rfl ⟨rfl, rfl, h⟩
    unfold Monitor.featureClosed
    simp only
    split
    · split
      · exact ⟨rfl, rfl, h⟩
      · split <;> exact ⟨rfl, rfl, h⟩
    · exact ⟨rfl, rfl, h⟩
  finish := by
    rintro m _ _ v ⟨rfl, rfl, h⟩
    unfold Monitor.finish
    split <;> exact ⟨rfl, rfl, h⟩

end Overheard

/-- A load goes the same way when its watcher is overheard and its calls are written down. -/
theorem load_overheard {σ ω : Type} [Store σ] [Watcher ω] (i : Input) (s : σ) (base : String)
    (w : ω) (options : Options) :
    let x := load i (Logged.mk s []) base (Overheard.mk w [] false) options
    x.Alike (load i s base w options) ∧ x.store.store = (load i s base w options).store := by
  intro x
  have hi := i.alike_self options.encoding
  have start (m : Monitor) : (Overheard.unison ω i.gauge).agree m w m (.mk w [] false) :=
    ⟨rfl, rfl, rfl⟩
  obtain ⟨answers, beside⟩ := load_beside (Overheard.unison ω i.gauge) hi (start _) s
    (Logged.mk s []) base _ rfl
  obtain ⟨heard, hstore⟩ := beside _ (answers.logged [])
  obtain ⟨plain, hplain⟩ := (load_answered i s s base w options).2 _ answers
  refine ⟨⟨plain.result.trans heard.result.symm, plain.counts.trans heard.counts.symm⟩, ?_⟩
  rw [hplain]
  exact congrArg Logged.store hstore

end MapTables
