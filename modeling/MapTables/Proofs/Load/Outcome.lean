import MapTables.Proofs.Load.Closing

/-!
# What a load comes to

On a store that refuses nothing and with a watcher that never stops it, a load comes to
what the plain assembly of its input comes to, whatever its batch size. Cut short by
anything, it leaves each table with the rows of whole features.
-/

namespace MapTables

variable {σ ω : Type} [Store σ] {view : σ → Memory} {refusing : Prop} [Watcher ω]

theorem load_spec (dr : Drives view refusing) {input : Input} {options : Options}
    {items : List Item} (h : input.items options.encoding = .ok items) {d : Dataset} {s : σ} (w : ω)
    (ho : Opening refusing d [] (view s)) :
    match (load input s d.base w options).result with
    | .ok report => ∃ counts R, assembled items = .ok (counts, R) ∧
      AtClosings (eventsOf items) (load input s d.base w options).counts.features (rowsFor · R) ∧
      Loaded d counts R report (view (load input s d.base w options).store)
    | .error f => (∃ done,
        AtClosings (eventsOf items) (load input s d.base w options).counts.features done ∧
        Holds d done (view (load input s d.base w options).store)) ∧
      (assembled items = .error f ∨ refusing ∨ Watcher.MayStop w) := by
  unfold load
  rw [Dataset.ofBase_base]
  unfold Input.items at h
  obtain ⟨⟨encoding, delivery⟩, hu, rfl⟩ := map_eq_ok.mp h
  rw [hu]
  simp only
  have hrun : Triple (Opened view refusing d w []) (Load.run options.dropExisting input.gauge
    (Transcript.ofDelivery delivery).items) _ _ := run_spec dr options.dropExisting input.gauge
  have hend := hrun {
    writing := { writer := { dataset := d, batchSize := options.batchSize }, store := s, lines := #[
        Journal.debug s!"reading OSM input as {encoding.name}",
        Journal.info s!"ingesting OSM XML into tables {d.base}_*"] }
    monitor := .ofTotal input.total options.averageFeature
    watcher := w } ⟨⟨options.batchSize, rfl⟩, rfl, .start, ho⟩
  unfold Ending at hend
  split at hend
  · next hr => rw [hr]; exact hend
  · next hr => rw [hr]; exact hend

/-! ## Undisturbed loads -/

/-- An undisturbed load refines the plain assembly of its input. It goes well just when that
does, and then tables and report tell the same; else it ends with the same fault. -/
theorem load_refines_assembled (d : Dataset) (input : Input) (m : Memory) (w : ω) (options : Options)
    (absent : ∀ k, m.tables.contains (d.tableName k) = false) (unstaged : m.staged = #[])
    (unlocked : m.lockedTable = none) (releasable : m.refusesRelease = false)
    (persistent : ¬ Watcher.MayStop w) :
    match input.assembled options.encoding with
    | .ok (counts, rows) =>
      ∃ report, (load input m d.base w options).result = .ok report ∧
        Loaded d counts rows report (load input m d.base w options).store
    | .error f => (load input m d.base w options).result = .error f := by
  have ho : Opening False d [] m := .of_absent absent unstaged (Or.inr unlocked) (Or.inr releasable)
  unfold Input.assembled
  cases hi : input.items options.encoding with
  | error f => rw [load_of_unread hi]
  | ok items =>
    have hl := load_spec drives_memory hi w ho
    cases hr : (load input m d.base w options).result with
    | ok report =>
      rw [hr] at hl
      obtain ⟨counts, R, hp, -, hloaded⟩ := hl
      simp only [hp]
      exact ⟨report, rfl, hloaded⟩
    | error f =>
      rw [hr] at hl
      have hp : assembled items = .error f := hl.2.resolve_right (by simpa using persistent)
      simp only [hp]

theorem load_refines_assembled_of_repeated_way :
    let options : Options := { batchSize := 1 }
    let text := "<way id=\"7\"><tag k=\"a\" v=\"b\"/></way><way id=\"7\"><tag k=\"a\" v=\"c\"/></way>"
    ∃ report, (load (.ofText text) ({} : Memory) "city" Unwatched.mk options).result = .ok report ∧
      Loaded ⟨"city", by decide⟩ { ways := 2, tags := 2 }
        [(.way, .way { id := 7 }), (.wayTag, .tag ⟨7, "a", "b"⟩),
          (.way, .way { id := 7 }), (.wayTag, .tag ⟨7, "a", "c"⟩)]
        report (load (.ofText text) ({} : Memory) "city" Unwatched.mk options).store := by
  intro options text
  have hp : ((Input.ofText text).assembled options.encoding).toOption =
      some ({ ways := 2, tags := 2 }, [(.way, .way { id := 7 }), (.wayTag, .tag ⟨7, "a", "b"⟩),
        (.way, .way { id := 7 }), (.wayTag, .tag ⟨7, "a", "c"⟩)]) := by decide +kernel
  have h := load_refines_assembled ⟨"city", by decide⟩ (.ofText text) {} Unwatched.mk options
    (fun _ => rfl) rfl rfl rfl (by rintro ⟨_, -, h⟩; cases h)
  cases ha : (Input.ofText text).assembled options.encoding with
  | error f => rw [ha] at hp; cases hp
  | ok r => rw [ha] at hp h; cases hp; exact h

/-! ## Loads cut short -/

/-- Whatever ends a load, each table has the rows up to one of the closings so far. In the end of
a load that goes well it has all. -/
theorem load_keeps_whole_features (d : Dataset) (input : Input) (s : Supervised Memory) (w : ω)
    (options : Options) (absent : ∀ k, s.store.tables.contains (d.tableName k) = false)
    (unstaged : s.store.staged = #[]) :
    (∀ k, ∃ m ≤ (load input s d.base w options).counts.features,
      ((load input s d.base w options).store.store.rows (d.tableName k)).toList =
        k.keep (rowsFor k (({} : Assembler).rowsToClosing m (input.events options.encoding)))) ∧
    ∀ report, (load input s d.base w options).result = .ok report →
      ∃ a R, ({} : Assembler).run (input.events options.encoding) = .ok (a, R) ∧
        ∀ k, ((load input s d.base w options).store.store.rows (d.tableName k)).toList =
          k.keep (rowsFor k R) := by
  have ho : Opening True d [] s.store :=
    .of_absent absent unstaged (Or.inl trivial) (Or.inl trivial)
  unfold Input.events
  cases hi : input.items options.encoding with
  | error f =>
    rw [load_of_unread hi]
    refine ⟨fun k => ⟨0, Nat.le_refl _, ?_⟩, fun _ h => by cases h⟩
    simp [ho.empty k]
  | ok items =>
    have hl := load_spec drives_supervised hi w ho
    cases hr : (load input s d.base w options).result with
    | ok report =>
      rw [hr] at hl
      obtain ⟨counts, R, hp, hc, hloaded⟩ := hl
      refine ⟨fun k => ?_, fun _ _ => ?_⟩
      · obtain ⟨m, hm, he⟩ := hc k
        exact ⟨m, hm, by rw [← he]; exact hloaded.rows k⟩
      · obtain ⟨a, ht, -, -⟩ := assembled_eq_ok.mp hp
        exact ⟨a, R, Assembler.run_of_takeAll ht, hloaded.rows⟩
    | error f =>
      rw [hr] at hl
      obtain ⟨⟨done, hc, hh⟩, -⟩ := hl
      refine ⟨fun k => ?_, fun _ h => by cases h⟩
      obtain ⟨m, hm, he⟩ := hc k
      exact ⟨m, hm, by rw [← he]; exact hh k⟩

/-- The second way is refused, and the first one stays. -/
theorem load_keeps_whole_features_of_refused_commit :
    let events : List Event := [.start .way [("id", "7")], .close .way,
      .start .way [("id", "8")], .close .way]
    let store : Supervised Memory :=
      { store := {}, fails := FailurePlan.nth fun method => if method = .commit then some 2 else none }
    let outcome := load (.ofText "<way id=\"7\"/><way id=\"8\"/>") store "city" Unwatched.mk
      { batchSize := 1 }
    outcome.result.toOption.isNone ∧ outcome.counts.features = 2 ∧
    (outcome.store.store.rows "city_way").toList =
      TableKind.way.keep (rowsFor .way (({} : Assembler).rowsToClosing 1 events)) ∧
    outcome.store.store.rows "city_way" = #[.way { id := 7 }] := by
  intro events store outcome
  have hp : (Input.ofText "<way id=\"7\"/><way id=\"8\"/>").events none = events := by
    decide +kernel
  have hrows : outcome.store.store.rows "city_way" = #[.way { id := 7 }] := by decide +kernel
  have hfeatures : outcome.counts.features = 2 := by decide +kernel
  obtain ⟨m, hm, hkept⟩ := (load_keeps_whole_features ⟨"city", by decide⟩
    (.ofText "<way id=\"7\"/><way id=\"8\"/>") store Unwatched.mk { batchSize := 1 }
    (fun _ => rfl) rfl).1 .way
  rw [hp] at hkept
  have hone : m = 1 := by
    have hle : m ≤ 2 := hfeatures ▸ hm
    have hfew := (congrArg Array.toList hrows).symm.trans hkept
    obtain rfl | rfl | rfl : m = 0 ∨ m = 1 ∨ m = 2 := by omega
    · exact absurd hfew (by decide +kernel)
    · rfl
    · exact absurd hfew (by decide +kernel)
  exact ⟨by decide +kernel, hfeatures, hone ▸ hkept, hrows⟩

end MapTables
