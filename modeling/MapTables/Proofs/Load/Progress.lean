import MapTables.Proofs.Load.Beside
import MapTables.Proofs.Load.Underway
import MapTables.Store.Memory

/-!
# Loads and the progress they tell

What a load tells of its progress, and how it finds that out, has no part in what it does. Watchers
that never stop a load may be told anything or nothing at all.
-/

namespace MapTables

/-! ## Watchers that never stop a load -/

section

variable {ω : Type} [Watcher ω]

/-- A watcher that starts out with what it keeps, and stops no load as long as it has that, never
stops one. -/
theorem Watcher.not_mayStop {w : ω} (P : ω → Prop) (start : P w)
    (told : ∀ v percent, P v → P (Watcher.report v percent).1)
    (asked : ∀ v, P v → P (Watcher.poll v).2) (passes : ∀ v, P v → (Watcher.poll v).1 = false) :
    ¬ Watcher.MayStop w := by
  rintro ⟨v, reached, stops⟩
  suffices hv : P v by
    rw [passes v hv] at stops
    cases stops
  clear stops
  induction reached with
  | start => exact start
  | told percent _ ih => exact told _ percent ih
  | asked _ ih => exact asked _ ih

theorem Announcer.not_mayStop {w : Announcer} (h : w.cancelled = false) :
    ¬ Watcher.MayStop w := by
  apply Watcher.not_mayStop (fun v : Announcer => v.cancelled = false) h
  · intro v percent hv
    change (v.report percent).1.cancelled = false
    unfold Announcer.report
    split <;> exact hv
  · intro v hv
    exact hv
  · intro v hv
    exact hv

theorem Recorder.not_mayStop {w : Recorder} (ha : w.cancelAt = none) (hs : w.cancelStep = none) :
    ¬ Watcher.MayStop w := by
  apply Watcher.not_mayStop (fun v : Recorder => v.cancelAt = none ∧ v.cancelStep = none) ⟨ha, hs⟩
  · intro v percent hv
    exact hv
  · intro v hv
    exact hv
  · rintro v ⟨hv, hv'⟩
    change Recorder.stops _ = false
    simp [Recorder.stops, hv, hv']

def Unison.persistent {w : ω} (h : ¬ Watcher.MayStop w) (gauge gauge' : Gauge) :
    Unison Unwatched ω gauge gauge' fun _ _ => True where
  agree _ _ _ v := Watcher.Reaches w v
  partner m _ := ⟨m, w, .start⟩
  poll _ _ _ v hv := by
    refine ⟨?_, .asked hv⟩
    by_contra hstop
    apply h
    exact ⟨v, hv, eq_true_of_ne_false hstop⟩
  count _ _ m' _ _ _ _ hv := hv.sampled m' _ _
  finish _ _ m' _ hv := by
    unfold Monitor.finish
    split
    · exact hv
    · exact .told _ hv

end

/-! ## Loads -/

variable {σ ω ω' : Type} [Store σ] [Watcher ω] [Watcher ω']

theorem Input.akin_of_delivery {i i' : Input} (h : i'.delivery = i.delivery)
    (hc : i'.codecs = i.codecs) (label : Option String) :
    i.Akin Eq (fun _ _ => True) label i' label := by
  have hitems : i'.items label = i.items label := by
    unfold Input.items
    rw [h, hc]
  unfold Akin
  rw [hitems]
  cases i.items label with
  | error f => exact Or.inl ⟨f, rfl, rfl⟩
  | ok items =>
    refine Or.inr ⟨items, items, rfl, rfl, List.forall₂_same.mpr fun item _ => ?_⟩
    exact Load.Item.Alike.akin ⟨rfl, trivial⟩

theorem load_unwatched {i i' : Input} {o o' : Options} (hd : i'.delivery = i.delivery)
    (hc : i'.codecs = i.codecs) (he : o'.encoding = o.encoding) (ho : o.StoreAlike o') {w : ω}
    (hw : ¬ Watcher.MayStop w) (s : σ) (base : String) :
    let x := load i s base Unwatched.mk o
    let y := load i' s base w o'
    x.Alike y ∧ y.store = x.store := by
  have hi : i.Akin Eq (fun _ _ => True) o.encoding i' o'.encoding := by
    rw [he]
    exact Input.akin_of_delivery hd hc o.encoding
  obtain ⟨hresult, hcounts, hstore, -⟩ :=
    load_akin (w := Unwatched.mk) (Unison.persistent hw i.gauge i'.gauge) hi ho .start s base
  exact ⟨⟨hresult.eq, hcounts⟩, hstore⟩

/-- Whatever is known of the size of the input, however it is found out how much of it was drawn,
and whoever is told: as long as nobody stops them, two loads of the same octets ask the same of
their store in the same order, and end alike. -/
theorem load_ignores_progress {i i' : Input} {o o' : Options} (hd : i'.delivery = i.delivery)
    (hc : i'.codecs = i.codecs) (he : o'.encoding = o.encoding) (ho : o.StoreAlike o') {w : ω}
    {w' : ω'} (hw : ¬ Watcher.MayStop w) (hw' : ¬ Watcher.MayStop w') (s : σ) (base : String) :
    let x := load i (Logged.mk s []) base w o
    let y := load i' (Logged.mk s []) base w' o'
    y.store.calls = x.store.calls ∧ y.store.store = x.store.store ∧ x.Alike y := by
  intro x y
  obtain ⟨hx, hxstore⟩ := load_unwatched (i := i) rfl rfl rfl (.refl o) hw (Logged.mk s []) base
  obtain ⟨hy, hystore⟩ := load_unwatched hd hc he ho hw' (Logged.mk s []) base
  have hstore : y.store = x.store := hystore.trans hxstore.symm
  refine ⟨congrArg Logged.calls hstore, congrArg Logged.store hstore, ?_, ?_⟩
  · exact hy.result.trans hx.result.symm
  · exact hy.counts.trans hx.counts.symm

/-- One load is told how much of its input was drawn, the other one never finds out. -/
theorem load_ignores_progress_of_two_ways :
    let text := Input.ofText "<way id=\"1\"/><way id=\"2\"/>"
    let known := { text with total := 4, gauge := .ofList [some 1, some 3] }
    let unknown := { text with total := 7, gauge := .ofList [none] }
    let options : Options := { batchSize := 1 }
    let denser : Options := { batchSize := 1, averageFeature := 1 }
    let x := load known (Logged.mk ({} : Memory) []) "t" ({} : Recorder) options
    let y := load unknown (Logged.mk ({} : Memory) []) "t" ({} : Announcer) denser
    x.watcher.steps = #[25, 75, 100] ∧ y.watcher.last = some 100 ∧ y.asked = 2 ∧
    x.store.store.rows "t_way" = #[.way { id := 1 }, .way { id := 2 }] ∧
    y.store.calls = x.store.calls ∧ y.store.store = x.store.store ∧ x.Alike y := by
  intro text known unknown options denser x y
  have delivery : unknown.delivery = known.delivery := rfl
  have encoding : denser.encoding = options.encoding := rfl
  have alike : options.StoreAlike denser := ⟨rfl, rfl⟩
  have recorder : ¬ Watcher.MayStop ({} : Recorder) := Recorder.not_mayStop rfl rfl
  have announcer : ¬ Watcher.MayStop ({} : Announcer) := Announcer.not_mayStop rfl
  refine ⟨by decide +kernel, by decide +kernel, by decide +kernel, by decide +kernel, ?_⟩
  exact load_ignores_progress delivery rfl encoding alike recorder announcer ({} : Memory) "t"

end MapTables
