import MapTables.Proofs.Load.Balance

/-!
# Flushes

A flush stores what waits of one table. When a step of it is refused, each table has the
rows of whole flushes, and the waiting rows of the table are stored or not as a whole.
-/

namespace MapTables

variable {σ : Type} [Store σ] {view : σ → Memory} {refusing : Prop} {d : Dataset}
  {rows done : TableKind → List Row}

/-- A flush was stopped between two of its steps. -/
def Stopped (view : σ → Memory) (refusing : Prop) (d : Dataset) (rows done : TableKind → List Row)
    (s : σ) : Prop :=
  refusing ∧ ∃ done', Between rows done done' ∧ Holds d done' (view s)

theorem Holds.flushed {k : TableKind} {m m' : Memory} {stored : Stored} (h : Holds d done m)
    (hs : Memory.Staging k (d.tableName k) m (rows k) (m', stored)) :
    Holds d (flushed rows done k) m'.commit := by
  intro j
  unfold MapTables.flushed
  by_cases hj : j = k
  · subst hj
    rw [if_pos rfl]
    exact hs.rows_commit
  · rw [if_neg hj, hs.rows_commit_of_ne (d.tableName_ne hj)]
    exact h j

theorem Settled.committed {k : TableKind} {m m' : Memory} {stored : Stored} {done : List Row}
    (h : Settled refusing d m)
    (hs : Memory.Staging k (d.tableName k) m done (m', stored)) :
    Settled refusing d { m'.commit with inTransaction := true } := by
  refine ⟨fun j => Memory.contains_commit ?_, rfl, ?_, ?_⟩
  · rw [hs.tables]; exact h.present j
  · exact h.unlocked.imp_right hs.lockedTable.trans
  · exact h.releasable.imp_right hs.refusesRelease.trans

theorem Shared.settled {k : TableKind} {table : String} {rows done : List Row} {b : Buffer}
    {m m' : Memory} {stored : Stored} (h : Shared k table rows done b m)
    (hs : Memory.Staging k table m rows (m', stored))
    (hc : stored.written + stored.duplicateTags = b.pending.toList.length) :
    Shared k table rows rows (b.settle stored) m'.commit := by
  have hm : (m'.rows table).size = (k.keep done).length := by
    rw [← h.stored, Array.length_toList]
    exact congrArg Array.size (congrArg (fun t => (t.get? table).getD #[]) hs.tables)
  have hk := congrArg List.length hs.kept
  have hl := congrArg List.length h.split
  have hw : m'.staged.size = stored.written := hs.counted
  have hg := h.given
  simp only [List.length_append, List.length_map, Array.length_toList] at hk hl hc
  refine ⟨by simp [Buffer.settle], hs.rows_commit, ?_, ?_⟩
  · simp only [Buffer.settle, Totals.add, h.written]
    omega
  · simp only [Buffer.settle, Totals.add]
    omega

theorem Shared.of_ne {k : TableKind} {table name : String} {rows done given : List Row} {b : Buffer}
    {m m' : Memory} {j : TableKind} {stored : Stored} (h : Shared j name rows done b m)
    (hs : Memory.Staging k table m given (m', stored)) (hn : name ≠ table) :
    Shared j name rows done b m'.commit :=
  ⟨h.split, (hs.rows_commit_of_ne hn).trans h.stored, h.written, h.given⟩

theorem Shared.begun {k : TableKind} {table : String} {rows done : List Row} {b : Buffer}
    {m : Memory} (h : Shared k table rows done b m) :
    Shared k table rows done b { m with inTransaction := true } :=
  ⟨h.split, h.stored, h.written, h.given⟩

theorem Balanced.insert {s : Writing σ} (h : Balanced view refusing d rows done s)
    (dr : Drives view refusing) (k : TableKind) (fault : StoreFault → LoadFault) :
    Triple (· = s)
      (Writing.ask (.insert k (d.tableName k) (s.writer.pending k).toList) fault)
      (fun stored t => t.writer = s.writer ∧
        Memory.Staging k (d.tableName k) (view s.store) (rows k) (view t.store, stored) ∧
        stored.written + stored.duplicateTags = (s.writer.pending k).toList.length)
      (fun _ t => Stopped view refusing d rows done t.store) := by
  obtain ⟨rfl, hset, hsh⟩ := h
  refine (dr.ask _ fault s.writer (view s.store)).weaken ?_ ?_ ?_
  · rintro _ rfl; exact ⟨rfl, rfl⟩
  · rintro stored t ⟨hw, ha⟩
    obtain ⟨hst, hc⟩ := Memory.insert_ok ha hset.unstaged (hsh k).stored
    have hk : rows k = done k ++ (s.writer.pending k).toList := (hsh k).split
    rw [← hk] at hst
    exact ⟨hw, hst, hc⟩
  · rintro _ t ⟨-, hv, hr⟩
    refine ⟨?_, done, Between.refl rows done, fun j => by rw [hv]; exact (hsh j).stored⟩
    refine hr.elim id fun hf => ?_
    rcases Memory.insert_error hf with hl | hp
    · exact hset.unlocked.elim id fun hu => by rw [hu] at hl; cases hl
    · rw [hset.present k] at hp; cases hp

theorem Balanced.flush (dr : Drives view refusing) (k : TableKind) :
    Triple (Balanced view refusing d rows done) (Writing.flush k)
      (fun _ => Balanced view refusing d rows (flushed rows done k))
      (fun _ s => Stopped view refusing d rows done s.store) := by
  unfold Writing.flush
  refine Triple.get_bind fun s hs => ?_
  obtain rfl := hs.dataset
  have hset := hs.settled
  refine Triple.bind (hs.insert dr k _) fun stored => Triple.of_state fun t ht => ?_
  obtain ⟨htw, hst, hc⟩ := ht
  have hcommit := hs.holds.flushed hst
  -- The batch is staged: until it is committed the tables are as they were.
  refine Triple.bind (Q := fun _ u => u.writer = s.writer ∧ view u.store = (view t.store).commit)
    ((dr.ask .commit _ s.writer (view t.store)).weaken ?_ ?_ ?_) fun _ => ?_
  · rintro _ rfl; exact ⟨htw, rfl⟩
  · rintro _ u ⟨hw, ha⟩; exact ⟨hw, (congrArg Prod.snd ha).symm⟩
  · rintro _ u ⟨-, hv, hr⟩
    refine ⟨hr.elim id ?_, done, Between.refl rows done, fun j => ?_⟩
    · rintro ⟨f, hf⟩; cases hf
    rw [hv, Memory.rows, hst.tables]
    exact hs.holds j
  -- It is committed, and the next transaction begins.
  refine Triple.bind (Q := fun _ u => u.writer = s.writer ∧
      view u.store = { (view t.store).commit with inTransaction := true })
    ((dr.ask .beginTransaction _ s.writer (view t.store).commit).weaken (fun _ h => h) ?_ ?_)
    fun _ => ?_
  · rintro _ u ⟨hw, ha⟩; exact ⟨hw, (congrArg Prod.snd ha).symm⟩
  · rintro _ u ⟨-, hv, hr⟩
    refine ⟨hr.elim id ?_, _, between_flushed rows done k, ?_⟩
    · rintro ⟨f, hf⟩; cases hf
    rw [hv]
    exact hcommit
  refine Triple.bind (Q := fun _ u => u.writer = s.writer ∧
      view u.store = { (view t.store).commit with inTransaction := true })
    (Triple.modify fun _ h => h) fun _ => Triple.modify ?_
  rintro u ⟨hw, hv⟩
  refine ⟨?_, ?_, fun j => ?_⟩
  · simp only [hw, Writer.settle]
  · simp only [hv]
    exact hset.committed hst
  · simp only [hw, hv]
    unfold flushed
    by_cases hj : j = k
    · subst hj
      rw [if_pos rfl, Writer.settle_self]
      exact ((hs.shared j).settled hst hc).begun
    · rw [if_neg hj, Writer.settle_of_ne _ _ hj]
      exact ((hs.shared j).of_ne hst (Dataset.tableName_ne _ hj)).begun

/-! ## Flushes of several tables -/

omit [Store σ] in
theorem Stopped.since {done' : TableKind → List Row} {s : σ}
    (h : Stopped view refusing d rows done' s) (hb : Between rows done done') :
    Stopped view refusing d rows done s := by
  obtain ⟨hr, given, hg, hh⟩ := h
  exact ⟨hr, given, hb.trans hg, hh⟩

/-- Some flushes have been, since which all rows of the tables of `ks` are stored. -/
def Flushed (view : σ → Memory) (refusing : Prop) (d : Dataset) (rows done : TableKind → List Row)
    (ks : List TableKind) (s : Writing σ) : Prop :=
  ∃ done', Between rows done done' ∧ (∀ k ∈ ks, done' k = rows k) ∧
    Balanced view refusing d rows done' s

omit [Store σ] in
theorem Balanced.flushed {s : Writing σ} (h : Balanced view refusing d rows done s) :
    Flushed view refusing d rows done [] s :=
  ⟨done, Between.refl rows done, by simp, h⟩

theorem Flushed.flush (dr : Drives view refusing) (k : TableKind) (ks : List TableKind) :
    Triple (Flushed view refusing d rows done ks) (Writing.flush k)
      (fun _ => Flushed view refusing d rows done (ks ++ [k]))
      (fun _ s => Stopped view refusing d rows done s.store) := by
  refine Triple.of_state fun s hs => ?_
  obtain ⟨done', hb, hks, hbal⟩ := hs
  have once : Triple (Balanced view refusing d rows done') (Writing.flush k) _ _ :=
    Balanced.flush dr k
  refine once.weaken ?_ ?_ ?_
  · rintro _ rfl; exact hbal
  · intro _ t ht
    refine ⟨MapTables.flushed rows done' k, hb.trans (between_flushed rows done' k), ?_, ht⟩
    intro j hj
    unfold MapTables.flushed
    split
    · rfl
    · next hne =>
      rw [List.mem_append, List.mem_singleton] at hj
      exact hks j (hj.resolve_right hne)
  · exact fun _ t ht => ht.since hb

theorem Balanced.poll (dr : Drives view refusing) :
    Triple (Balanced view refusing d rows done) Writing.poll
      (fun _ => Flushed view refusing d rows done [])
      (fun _ s => Stopped view refusing d rows done s.store) := by
  have round (k : TableKind) : Triple (Flushed view refusing d rows done [])
      (Writing.flushIfDue k) (fun _ => Flushed view refusing d rows done [])
      (fun _ s => Stopped view refusing d rows done s.store) := by
    unfold Writing.flushIfDue
    refine Triple.get_bind fun s hs => ?_
    split
    · refine Triple.bind (Q := fun _ => Flushed view refusing d rows done [])
        ((Flushed.flush dr k []).weaken ?_ ?_ fun _ _ h => h) fun _ => Triple.pure fun _ h => h
      · rintro _ rfl; exact hs
      · rintro _ t ⟨done', hb, -, hbal⟩
        exact ⟨done', hb, by simp, hbal⟩
    · exact Triple.pure fun _ h => h ▸ hs
  refine (Triple.forM (I := fun _ => Flushed view refusing d rows done []) TableKind.all ?_).weaken
    (fun _ h => h.flushed) (fun _ _ h => h) (fun _ _ h => h)
  exact fun _ k _ _ => Triple.bind (round k) fun _ => Triple.pure fun _ h => h

theorem Balanced.flushAll (dr : Drives view refusing) :
    Triple (Balanced view refusing d rows done) Writing.flushAll
      (fun _ => Balanced view refusing d rows rows)
      (fun _ s => Stopped view refusing d rows done s.store) := by
  refine (Triple.forM (I := Flushed view refusing d rows done) TableKind.all ?_).weaken
    (fun _ h => h.flushed) ?_ (fun _ _ h => h)
  · intro before k _ _
    refine Triple.get_bind fun s hs => ?_
    split
    · next hp =>
      -- Nothing waits for the table, so it has all its rows already.
      refine Triple.pure ?_
      rintro _ rfl
      obtain ⟨done', hb, hks, hbal⟩ := hs
      refine ⟨done', hb, fun j hj => ?_, hbal⟩
      rw [List.mem_append, List.mem_singleton] at hj
      rcases hj with hj | rfl
      · exact hks j hj
      · have hsplit := (hbal.shared j).split
        unfold Writer.pending at hp
        simp only [Array.isEmpty_iff] at hp
        simpa [hp] using hsplit.symm
    · exact (Flushed.flush dr k before).weaken (fun _ h => h ▸ hs) (fun _ _ h => h) fun _ _ h => h
  · rintro _ s ⟨done', -, hall, hbal⟩
    obtain rfl : done' = rows := funext fun k => hall k k.mem_all
    exact hbal

end MapTables
