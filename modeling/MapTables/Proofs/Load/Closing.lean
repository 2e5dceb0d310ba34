import MapTables.Proofs.Load.Opening

/-!
# Closing a load

A commit finds nothing staged and a rollback only forgets, so the end of a load leaves the
tables as they are. The report of a load that went well tells what they hold.
-/

namespace MapTables

/-- What is reported and held once all rows are stored. -/
structure Loaded (d : Dataset) (counts : Counts) (R : List Placed) (report : Report)
    (m : Memory) : Prop where
  dataset : report.dataset = d
  counts : report.counts = counts
  /-- Each table has its rows in order, repeated tags left out. -/
  rows : ∀ k, (m.rows (d.tableName k)).toList = k.keep (rowsFor k R)
  written : ∀ k, (report.totals.get k).written = (m.rows (d.tableName k)).size
  /-- The other rows were left out. -/
  duplicates : ∀ k, (m.rows (d.tableName k)).size + (report.totals.get k).duplicateTags =
    (rowsFor k R).length

variable {σ ω : Type} {view : σ → Memory} {refusing : Prop} {d : Dataset} [Watcher ω] {w : ω}
  {items : List Item} {rows done : TableKind → List Row}

theorem Balanced.committed {s t : Writing σ} (h : Balanced view refusing d rows done s)
    (hw : t.writer = s.writer) (hs : view t.store = (view s.store).commit) :
    Balanced view refusing d rows done t := by
  have hrows (name : String) := Memory.rows_commit_of_unstaged h.settled.unstaged name
  refine ⟨by rw [hw]; exact h.dataset, ?_, fun k => ?_⟩
  · rw [hs]
    exact ⟨fun k => Memory.contains_commit (h.settled.present k), rfl, h.settled.unlocked,
      h.settled.releasable⟩
  · rw [hw, hs]
    obtain ⟨hsplit, hstored, hwritten, hgiven⟩ := h.shared k
    exact ⟨hsplit, by rw [hrows]; exact hstored, hwritten, hgiven⟩

theorem Balanced.loaded {s : Writing σ} {R : List Placed}
    (h : Balanced view refusing d (rowsFor · R) (rowsFor · R) s) (counts : Counts) :
    Loaded d counts R (.ofWriter s.writer counts) (view s.store) := by
  have hsize (k : TableKind) : ((view s.store).rows (d.tableName k)).size =
      (k.keep (rowsFor k R)).length := by
    rw [← (h.shared k).stored, Array.length_toList]
  refine ⟨h.dataset, rfl, h.holds, fun k => ?_, fun k => ?_⟩
  · rw [Report.totals_ofWriter, hsize]
    exact (h.shared k).written
  · rw [Report.totals_ofWriter, hsize, ← (h.shared k).written]
    exact (h.shared k).given

/-- How a load stands that came to a result. -/
def Left (view : σ → Memory) (refusing : Prop) (d : Dataset) (w : ω) (items : List Item)
    (result : Except LoadFault Counts) (l : Load σ ω) : Prop :=
  match result with
  | .ok counts => ∃ R, Drained view refusing d w items counts R l
  | .error f => Ended view refusing d w items f l

theorem Left.of_eq {result : Except LoadFault Counts} {l l' : Load σ ω}
    (h : Left view refusing d w items result l) (ha : l'.assembler = l.assembler)
    (hw : l'.writing.writer = l.writing.writer) (hs : l'.writing.store = l.writing.store) :
    Left view refusing d w items result l' := by
  cases result with
  | error f => exact Ended.of_eq h ha (by rw [hs])
  | ok counts =>
    obtain ⟨R, hp, hc, hb⟩ := h
    exact ⟨R, hp, by rw [ha]; exact hc, hb.of_eq hw (by rw [hs])⟩

theorem Drained.ended {counts : Counts} {R : List Placed} {l : Load σ ω} {f : LoadFault}
    (h : Drained view refusing d w items counts R l) (hr : refusing) :
    Ended view refusing d w items f l :=
  ⟨⟨_, h.cut, h.balanced.holds⟩, Or.inr (Or.inl hr)⟩

variable [Store σ]

theorem rollback_spec (dr : Drives view refusing) {f : LoadFault} :
    Triple (Ended view refusing d w items f) (Load.rollback : LoadM σ ω Unit)
      (fun _ => Ended view refusing d w items f) (fun _ _ => False) := by
  unfold Load.rollback
  refine Triple.bind (Q := fun _ => Ended view refusing d w items f)
    (Load.byWriter_spec fun l h => ?_) fun a => ?_
  · refine (dr.reply .rollback l.writing.writer (view l.writing.store) l.writing ⟨rfl, rfl⟩).imp
      ?_ fun _ _ h => h
    rintro a t ⟨-, ha⟩
    have hrows : (view t.store).tables = (view l.writing.store).tables := by
      cases a with
      | ok _ => exact (congrArg (fun p => p.2.tables) ha).symm
      | error _ => exact congrArg Memory.tables ha.1
    obtain ⟨⟨done, hc, hh⟩, hf⟩ := h
    refine ⟨⟨done, hc, fun k => ?_⟩, hf⟩
    simp only [Memory.rows, hrows]
    exact hh k
  · cases a with
    | ok _ => exact Triple.pure fun _ h => h
    | error _ =>
      exact Load.sayAll_spec fun l h lines =>
        (h.of_eq rfl rfl : Ended view refusing d w items f _)

/-- What the commit in the end leaves, by its answer. -/
def Committed (view : σ → Memory) (refusing : Prop) (d : Dataset) (w : ω) (items : List Item)
    (counts : Counts) : Except StoreFault Request.commit.Answer → Load σ ω → Prop
  | .ok _, l => Left view refusing d w items (.ok counts) l
  | .error f, l => Ended view refusing d w items (.refused .commit f) l

theorem settle_spec (dr : Drives view refusing) (result : Except LoadFault Counts) :
    Triple (Left view refusing d w items result) (Load.settle result : LoadM σ ω _)
      (Left view refusing d w items) (fun _ _ => False) := by
  unfold Load.settle
  cases result with
  | error f => exact Triple.bind (rollback_spec dr) fun _ => Triple.pure fun _ h => h
  | ok counts =>
    refine Triple.bind (Q := Committed view refusing d w items counts)
      (Load.byWriter_spec fun l h => ?_) fun a => ?_
    · obtain ⟨R, h⟩ := h
      refine (dr.reply .commit l.writing.writer (view l.writing.store) l.writing ⟨rfl, rfl⟩).imp
        ?_ fun _ _ h => h
      rintro a t ⟨hw, ha⟩
      cases a with
      | ok _ => exact ⟨R, h.plain, h.cut, h.balanced.committed hw (congrArg Prod.snd ha).symm⟩
      | error f =>
        rcases ha.2 with hr | ⟨_, hf⟩
        · exact (h.ended hr).of_eq rfl ha.1
        · cases hf
    · cases a with
      | ok _ => exact Triple.pure fun _ h => h
      | error f => exact Triple.bind (rollback_spec dr) fun _ => Triple.pure fun _ h => h

def Reported (view : σ → Memory) (d : Dataset) (items : List Item) (report : Report)
    (l : Load σ ω) : Prop :=
  ∃ counts R, assembled items = .ok (counts, R) ∧
    AtClosings (eventsOf items) l.assembler.counts.features (rowsFor · R) ∧
    Loaded d counts R report (view l.writing.store)

theorem Memory.tables_of_release {m next : Memory} {a : Unit}
    (h : Memory.ask .release m = (.ok a, next)) : next.tables = m.tables := by
  simp only [Memory.ask, Memory.release] at h
  split at h
  · cases h
  · cases h; rfl

theorem Memory.refusesRelease_of_release {m : Memory} (h : ∃ f, (Memory.ask .release m).1 = .error f) :
    m.refusesRelease = true := by
  obtain ⟨f, hf⟩ := h
  simp only [Memory.ask, Memory.release] at hf
  split at hf
  · assumption
  · cases hf

theorem release_spec (dr : Drives view refusing) (result : Except LoadFault Counts) :
    Triple (Left view refusing d w items result) (Load.reply .release : LoadM σ ω _)
      (fun a l => match result, a with
        | .ok counts, .ok _ =>
          Reported view d items (.ofWriter l.writing.writer counts) l
        | .ok _, .error f => Ended view refusing d w items (.notReleased f) l
        | .error f, _ => Ended view refusing d w items f l)
      (fun _ _ => False) := by
  refine Load.byWriter_spec fun l h => ?_
  refine (dr.reply .release l.writing.writer (view l.writing.store) l.writing ⟨rfl, rfl⟩).imp
    ?_ fun _ _ h => h
  rintro a t ⟨hw, ha⟩
  cases result with
  | error f =>
    obtain ⟨⟨done, hc, hh⟩, hf⟩ := h
    refine ⟨⟨done, hc, fun k => ?_⟩, hf⟩
    cases a with
    | ok _ => simp only [Memory.rows, Memory.tables_of_release ha]; exact hh k
    | error _ => rw [ha.1]; exact hh k
  | ok counts =>
    obtain ⟨R, h⟩ := h
    cases a with
    | ok _ =>
      refine ⟨counts, R, h.plain, h.cut, ?_⟩
      obtain ⟨h1, h2, h3, h4, h5⟩ := h.balanced.loaded counts
      simp only [hw]
      unfold Memory.rows at h3 h4 h5
      rw [← Memory.tables_of_release ha] at h3 h4 h5
      exact ⟨h1, h2, h3, h4, h5⟩
    | error f =>
      have hr : refusing := by
        refine ha.2.elim id fun hf => h.balanced.settled.releasable.elim id fun hm => ?_
        rw [Memory.refusesRelease_of_release hf] at hm
        cases hm
      exact (h.ended hr).of_eq rfl ha.1

/-- A load that came to a result is closed with its report, or with its fault. -/
theorem close_spec (dr : Drives view refusing) (result : Except LoadFault Counts) :
    Triple (Left view refusing d w items result) (Load.close result : LoadM σ ω Report)
      (Reported view d items) (Ended view refusing d w items) := by
  unfold Load.close
  refine Triple.bind (Q := fun _ => Left view refusing d w items result) (Load.enter_spec ?_)
    fun _ => ?_
  · exact fun l h lines => h.of_eq rfl rfl rfl
  refine Triple.bind ((settle_spec dr result).weaken (fun _ h => h) (fun _ _ h => h)
    fun _ _ h => h.elim) fun settled => ?_
  refine Triple.bind ((release_spec dr settled).weaken (fun _ h => h) (fun _ _ h => h)
    fun _ _ h => h.elim) fun released => ?_
  cases settled with
  | ok counts =>
    cases released with
    | ok _ =>
      refine Triple.get_bind fun l hl => Triple.pure ?_
      rintro _ rfl
      exact hl
    | error f => exact Triple.throw fun _ h => h
  | error fault =>
    cases released with
    | ok _ => exact Triple.throw fun _ h => h
    | error f =>
      refine Triple.bind (Load.sayAll_spec fun l h lines => ?_) fun _ => Triple.throw fun _ h => h
      exact (h.of_eq rfl rfl : Ended view refusing d w items fault _)

theorem run_spec (dr : Drives view refusing) (drop : Bool) (gauge : Gauge) :
    Triple (Opened view refusing d w []) (Load.run drop gauge items : LoadM σ ω Report)
      (Reported view d items) (Ended view refusing d w items) := by
  unfold Load.run
  refine Triple.bind (Q := Left view refusing d w items) (Load.attempt_spec ?_) fun result => ?_
  · exact Triple.bind (openTables_spec dr drop) fun _ => consume_spec dr gauge
  · refine Triple.bind (close_spec dr result) fun report => ?_
    refine Triple.bind (Load.sayAll_spec fun l h lines => ?_) fun _ => Triple.pure fun _ h => h
    exact (h : Reported view d items report l)

end MapTables
