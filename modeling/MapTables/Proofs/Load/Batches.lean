import MapTables.Proofs.Load.Resting

/-!
# Sizes of batches

While a document is read full batches are stored. What is left for the end is less than one batch
of each table, and features' own tables take as many flushes as their rows fill.
-/

namespace MapTables

variable {σ ω : Type} {d : Dataset} {drop : Bool} {n : Nat}

/-- The rows that wait for the tables, as batches: one for each table for which any wait. -/
def Writer.batchesOf (w : Writer) (ks : List TableKind) : List Batch :=
  ks.filterMap fun k => if (w.pending k).isEmpty then none else some (k, (w.pending k).toList)

/-! ## What is left for the end -/

section

variable [Store σ] [Watcher ω] {calls : List Call}

/-- Of the rows that waited those for the tables in `front` were stored, each table's in a batch of
its own. -/
structure Emptied (w : Writer) (calls : List Call) (front : List TableKind)
    (t : Writing (Logged σ)) : Prop where
  dataset : t.writer.dataset = w.dataset
  others : ∀ k ∉ front, t.writer.buffers.get k = w.buffers.get k
  flushes : ∀ k ∈ front, (t.writer.buffers.get k).totals.flushes =
    (w.buffers.get k).totals.flushes + if (w.pending k).isEmpty then 0 else 1
  stored : ∃ more, t.store.calls = calls ++ more ∧
    Passed ((w.batchesOf front).flatMap (batchRequests w.dataset)) more

omit [Store σ] [Watcher ω] in
theorem Emptied.concat {w : Writer} {front : List TableKind} {k : TableKind}
    {t u : Writing (Logged σ)} (h : Emptied w calls front t)
    (dataset : u.writer.dataset = w.dataset)
    (others : ∀ j ≠ k, u.writer.buffers.get j = t.writer.buffers.get j)
    (flushes : (u.writer.buffers.get k).totals.flushes = (w.buffers.get k).totals.flushes +
      if (w.pending k).isEmpty then 0 else 1)
    (fresh : k ∉ front) {more : List Call} (stored : u.store.calls = t.store.calls ++ more)
    (passed : Passed ((w.batchesOf [k]).flatMap (batchRequests w.dataset)) more) :
    Emptied w calls (front ++ [k]) u := by
  obtain ⟨before, hbefore, hpassed⟩ := h.stored
  refine ⟨dataset, fun j hj => ?_, fun j hj => ?_, before ++ more, ?_, ?_, fun c hc => ?_⟩
  · rw [List.mem_append, List.mem_singleton, not_or] at hj
    rw [others j hj.2, h.others j hj.1]
  · rw [List.mem_append, List.mem_singleton] at hj
    rcases hj with hj | rfl
    · rw [others j fun he => fresh (he ▸ hj), h.flushes j hj]
    · exact flushes
  · rw [stored, hbefore, List.append_assoc]
  · rw [List.map_append, hpassed.1, passed.1, Writer.batchesOf, Writer.batchesOf, Writer.batchesOf,
      List.filterMap_append, List.flatMap_append]
  · exact (List.mem_append.mp hc).elim (hpassed.2 c) (passed.2 c)

omit [Watcher ω] in
theorem flushAll_emptied (w : Writer) (calls : List Call) :
    Triple (fun t : Writing (Logged σ) => t.writer = w ∧ t.store.calls = calls) Writing.flushAll
      (fun _ => Emptied w calls TableKind.all) (fun _ t => Refused t.store.calls) := by
  refine (Triple.forM (I := Emptied w calls) TableKind.all fun front k after hall => ?_).weaken ?_
    (fun _ _ h => h) fun _ _ h => h
  · have fresh : k ∉ front := by
      have := TableKind.nodup_all
      rw [hall, List.nodup_append] at this
      exact fun hk => this.2.2 k hk k List.mem_cons_self rfl
    refine Triple.get_bind fun t ht => ?_
    have waits : t.writer.pending k = w.pending k := congrArg Buffer.pending (ht.others k fresh)
    have before : (t.writer.buffers.get k).totals.flushes = (w.buffers.get k).totals.flushes :=
      congrArg (fun b : Buffer => b.totals.flushes) (ht.others k fresh)
    split
    · next he =>
      rw [waits] at he
      refine Triple.pure ?_
      rintro _ rfl
      refine ht.concat ht.dataset (fun _ _ => rfl) (by rw [before, if_pos he]; rfl) fresh
        (List.append_nil _).symm ?_
      rw [Writer.batchesOf, List.filterMap_cons, if_pos he]
      exact ⟨rfl, nofun⟩
    · next he =>
      rw [waits] at he
      refine (flush_logged k t).weaken (fun _ h => h) ?_ fun _ _ h => h
      rintro _ u ⟨stored, more, hw, hc, hp⟩
      refine ht.concat (by rw [hw]; exact ht.dataset) (fun j hj => ?_) ?_ fresh hc ?_
      · rw [hw, Writer.settle_of_ne _ _ hj]
      · rw [hw, Writer.settle_self, if_neg he, ← before]
        rfl
      · rw [ht.dataset, waits] at hp
        rw [Writer.batchesOf, List.filterMap_cons, if_neg he]
        simpa using hp
  · rintro t ⟨rfl, rfl⟩
    exact ⟨rfl, fun _ _ => rfl, nofun, [], (List.append_nil _).symm, rfl, nofun⟩

theorem drain_emptied (l : Load (Logged σ) ω) :
    Triple (· = l) Load.drain
      (fun counts t => l.assembler.openFeature = none ∧ counts = l.assembler.counts ∧
        Emptied l.writing.writer l.writing.store.calls TableKind.all t.writing)
      (fun _ t => l.assembler.openFeature ≠ none ∧ t.writing.store.calls = l.writing.store.calls ∨
        Refused t.writing.store.calls) := by
  unfold Load.drain
  refine Triple.get_bind fun l' hl' => ?_
  obtain rfl := hl'.symm
  split
  · next hf =>
    refine Triple.throw ?_
    rintro _ rfl
    refine Or.inl ⟨fun hn => ?_, rfl⟩
    rw [Assembler.finish_eq_ok.mpr ⟨hn, rfl⟩] at hf
    cases hf
  · next counts hf =>
    obtain ⟨hn, hcounts⟩ := Assembler.finish_eq_ok.mp hf
    refine Triple.bind (Q := fun _ t => t.writing.writer = l.writing.writer ∧
      t.writing.store.calls = l.writing.store.calls) (Load.enter_spec ?_) fun _ => ?_
    · rintro _ rfl lines
      exact ⟨rfl, rfl⟩
    refine Triple.bind (Q := fun _ t => Emptied l.writing.writer l.writing.store.calls
      TableKind.all t.writing) (Load.byWriter_spec fun t ht => ?_) fun _ => ?_
    · exact (flushAll_emptied _ _ t.writing ht).imp (fun _ _ h => h) fun _ _ h => Or.inr h
    · refine Triple.bind (Load.countLast_still ?_) fun _ => Triple.pure fun t ht =>
        ⟨hn, hcounts.symm, ht⟩
      intro t t' ⟨hd, ho, hf, hst⟩ hs
      exact ⟨by rw [hs.writer]; exact hd, by rw [hs.writer]; exact ho, by rw [hs.writer]; exact hf,
        by rw [hs.store]; exact hst⟩

omit [Watcher ω] in
theorem reply_logged (r : Request) (w : Writer) (calls : List Call) :
    Triple (fun l : Load (Logged σ) ω => l.writing.writer = w ∧ l.writing.store.calls = calls)
      (Load.reply r)
      (fun a l => l.writing.writer = w ∧ l.writing.store.calls = calls ++ [⟨r, a⟩])
      (fun _ _ => False) := by
  refine Load.byWriter_spec fun l ⟨hw, hc⟩ => ?_
  exact (Logged.reply_spec r l.writing l.writing rfl).imp
    (fun a t ht => ⟨ht.1.trans hw, by rw [ht.2, hc]⟩) fun _ _ h => h

omit [Watcher ω] in
theorem conclude_counts (counts : Counts) (w : Writer) (calls : List Call) :
    Triple (fun l : Load (Logged σ) ω => l.writing.writer = w ∧ l.writing.store.calls = calls)
      (Load.conclude (.ok counts))
      (fun report l => report = .ofWriter w counts ∧
        l.writing.store.calls.map Call.request = calls.map Call.request ++ [.commit, .release])
      (fun _ l => Refused l.writing.store.calls) := by
  refine Triple.bind (Q := fun report l => report = .ofWriter w counts ∧
    l.writing.store.calls.map Call.request = calls.map Call.request ++ [.commit, .release]) ?_
    fun report => Triple.bind (Load.sayAll_spec fun l h _ => h) fun _ => Triple.pure fun _ h => h
  refine Triple.bind (Q := fun _ l => l.writing.writer = w ∧ l.writing.store.calls = calls)
    (Load.enter_spec fun l h _ => h) fun _ => ?_
  -- A load whose commit is refused goes on as one that failed.
  refine Triple.bind (Q := fun settled l => Ending (fun counts' l => counts' = counts ∧
      l.writing.writer = w ∧ l.writing.store.calls.map Call.request =
        calls.map Call.request ++ [.commit])
    (fun _ l => Refused l.writing.store.calls) (settled, l)) ?_
    fun settled => Triple.of_state fun l hl => ?_
  · refine Triple.bind ((reply_logged .commit w calls).weaken (fun _ h => h) (fun _ _ h => h)
      fun _ _ h => h.elim) fun a => ?_
    cases a with
    | ok a => exact Triple.pure fun l h => ⟨rfl, h.1, by rw [h.2, List.map_append]; rfl⟩
    | error f =>
      refine Triple.bind ((rollback_calls (calls ++ [⟨.commit, .error f⟩])).weaken (fun _ h => h.2)
        (fun _ _ h => h) fun _ _ h => h.elim) fun _ => Triple.pure fun l ⟨c, _, h⟩ => ?_
      exact ⟨⟨.commit, .error f⟩, by rw [h]; simp, rfl⟩
  have released : Triple (· = l) (Load.reply .release : LoadM (Logged σ) ω _)
      (fun a t => t.writing.writer = l.writing.writer ∧
        t.writing.store.calls = l.writing.store.calls ++ [⟨.release, a⟩])
      (fun _ t => Refused t.writing.store.calls) := by
    refine (reply_logged .release l.writing.writer l.writing.store.calls).weaken ?_ (fun _ _ h => h)
      fun _ _ h => h.elim
    rintro _ rfl
    exact ⟨rfl, rfl⟩
  refine Triple.bind released fun a => ?_
  cases settled with
  | ok counts' =>
    obtain ⟨rfl, rfl, hc⟩ := hl
    cases a with
    | ok a =>
      refine Triple.get_bind fun t ht => Triple.pure ?_
      rintro _ rfl
      refine ⟨by rw [ht.1], ?_⟩
      rw [ht.2, List.map_append, hc, List.append_assoc]
      rfl
    | error f => exact Triple.throw fun t ht => ⟨⟨.release, .error f⟩, by rw [ht.2]; simp, rfl⟩
  | error fault =>
    have refused (t : Load (Logged σ) ω)
        (ht : t.writing.store.calls = l.writing.store.calls ++ [⟨.release, a⟩]) :
        Refused t.writing.store.calls := by
      obtain ⟨c, hc, hg⟩ := hl
      exact ⟨c, by rw [ht]; exact List.mem_append_left _ hc, hg⟩
    cases a with
    | ok a => exact Triple.throw fun t ht => refused t ht.2
    | error f =>
      refine Triple.bind (Q := fun _ t => Refused t.writing.store.calls)
        (Load.sayAll_spec fun t ht _ => refused t ht.2) fun _ => Triple.throw fun _ h => h

end

/-! ## Whole loads -/

/-- The points that a load comes to and the calls it makes, if it is refused nothing, takes the
items in `front` and is in state `l` then. -/
structure Batched (d : Dataset) (drop : Bool) (gauge : Gauge) (n : Nat) (start : Load (Logged σ) ω)
    [Store σ] [Watcher ω] (front rest : List Item) (l : Load (Logged σ) ω) (calls : List Call) :
    Prop where
  /-- From the end of a feature to the next one less than a batch waits for each table. -/
  carried : ∀ before t, before <+: front → Load.upTo drop gauge before start = (.ok (), t) →
    (before.getLast?.any Item.closes = true → t.assembler.openFeature = none) ∧
    (t.assembler.openFeature = none →
      (∀ k, (t.writing.writer.pending k).size < n) ∧ t.writing.writer.waiting ≤ 10 * (n - 1))
  /-- Up to `l` full batches are stored. In the end of a document that is complete there is one
  more for each table for which rows wait. -/
  stored : ∃ batches : List Batch, (∀ b ∈ batches, b.IsFull n) ∧
    l.writing.store.calls.map Call.request = script d drop batches ∧
    calls.map Call.request = if rest.isEmpty && l.assembler.openFeature.isNone then
        script d drop (batches ++ l.writing.writer.batchesOf TableKind.all) ++ [.commit, .release]
      else script d drop batches ++ [.rollback, .release]

theorem Writer.waiting_le {w : Writer} {m : Nat} (h : ∀ k, (w.pending k).size ≤ m) :
    w.waiting ≤ 10 * m := by
  have sum (ks : List TableKind) :
      ks.foldr (fun k n => (w.pending k).size + n) 0 ≤ ks.length * m := by
    induction ks with
    | nil => exact Nat.zero_le _
    | cons k ks ih =>
      rw [List.foldr_cons, List.length_cons, Nat.succ_mul, Nat.add_comm]
      exact Nat.add_le_add ih (h k)
  exact sum TableKind.all

theorem div_batches {n f p : Nat} (hp : p < n) :
    (n * f + p + n - 1) / n = f + if p = 0 then 0 else 1 := by
  have hn : 0 < n := by omega
  split
  · next h =>
    rw [h, show n * f + 0 + n - 1 = n * f + (n - 1) by omega, Nat.mul_add_div hn,
      Nat.div_eq_of_lt (by omega)]
  · next h =>
    rw [show n * f + p + n - 1 = n * (f + 1) + (p - 1) by rw [Nat.mul_succ]; omega,
      Nat.mul_add_div hn, Nat.div_eq_of_lt (by omega)]

section

variable [Store σ] [Watcher ω] {gauge : Gauge} {items front rest : List Item}
  {start l t : Load (Logged σ) ω}

omit [Watcher ω] in
theorem conclude_fault_calls (f : LoadFault) (t : Load (Logged σ) ω) :
    (∀ report, (Load.conclude (.error f) t).1 ≠ .ok report) ∧ ∃ undone released,
      (Load.conclude (.error f) t).2.writing.store.calls =
        t.writing.store.calls ++ [⟨.rollback, undone⟩, ⟨.release, released⟩] := by
  have failed := Load.conclude_failed f (s := t.writing.store) (a := t.assembler) (v := t.watcher) t
    ⟨rfl, rfl, rfl⟩
  unfold Ending at failed
  split at failed
  · exact failed.elim
  · next heq =>
    rw [heq]
    refine ⟨nofun, ?_⟩
    simp only [failed.2.store]
    exact ⟨_, _, List.append_assoc _ _ _⟩

omit [Store σ] [Watcher ω] in
theorem Resting.carried (h : Resting d drop n l) (hn : l.assembler.openFeature = none) :
    (∀ k, (l.writing.writer.pending k).size < n) ∧ l.writing.writer.waiting ≤ 10 * (n - 1) :=
  ⟨h.rest hn, Writer.waiting_le fun k => Nat.le_sub_one_of_lt (h.rest hn k)⟩

/-- What is known of each point of a load that starts with nothing. -/
structure Points (d : Dataset) (drop : Bool) (gauge : Gauge) (n : Nat) (start : Load (Logged σ) ω) :
    Prop where
  resting : ∀ before t, Load.upTo drop gauge before start = (.ok (), t) → Resting d drop n t
  closed : ∀ before t, Load.upTo drop gauge before start = (.ok (), t) →
    before.getLast?.any Item.closes = true → t.assembler.openFeature = none

theorem Unfilled.points (h : Unfilled d n start) (uncalled : start.writing.store.calls = [])
    (hn : 0 < n) (drop : Bool) (gauge : Gauge) : Points d drop gauge n start := by
  have each (before : List Item) (t : Load (Logged σ) ω)
      (ht : Load.upTo drop gauge before start = (.ok (), t)) : Resting d drop n t ∧
        (before.getLast?.any Item.closes = true → t.assembler.openFeature = none) := by
    have := upTo_resting hn drop gauge before start ⟨h, uncalled⟩
    rwa [ht] at this
  exact ⟨fun before t ht => (each before t ht).1, fun before t ht => (each before t ht).2⟩

theorem Points.batched (h : Points d drop gauge n start) {calls : List Call}
    (comes : Load.upTo drop gauge front start = (.ok (), l))
    (made : ∀ batches, l.writing.store.calls.map Call.request = script d drop batches →
      calls.map Call.request = if rest.isEmpty && l.assembler.openFeature.isNone then
          script d drop (batches ++ l.writing.writer.batchesOf TableKind.all) ++ [.commit, .release]
        else script d drop batches ++ [.rollback, .release]) :
    Batched d drop gauge n start front rest l calls := by
  obtain ⟨batches, hfull, hpassed⟩ := (h.resting front l comes).shipping.stored
  exact ⟨fun before t _ ht => ⟨h.closed before t ht, (h.resting before t ht).carried⟩,
    batches, hfull, hpassed.1, made batches hpassed.1⟩

/-- Features' own tables took as many flushes as their rows fill, the last one in part. -/
def Report.FlushedBy (n : Nat) (report : Report) : Prop := ∀ k : FeatureKind,
  (report.totals.get (.ofFeature k)).flushes = (report.counts.ofKind k + n - 1) / n

/-- How a load ends from its last point. -/
def BatchedTo (d : Dataset) (drop : Bool) (gauge : Gauge) (n : Nat) (start : Load (Logged σ) ω)
    (front rest : List Item) (l : Load (Logged σ) ω)
    (r : Except LoadFault Report × Load (Logged σ) ω) : Prop :=
  Batched d drop gauge n start front rest l r.2.writing.store.calls ∧
    ∀ report, r.1 = .ok report → report.FlushedBy n

theorem Points.batched_failed (h : Points d drop gauge n start) {f : LoadFault}
    (comes : Load.upTo drop gauge front start = (.ok (), l))
    (granted : ¬ Refused (Load.conclude (.error f) t).2.writing.store.calls)
    (stopped : (rest.isEmpty && l.assembler.openFeature.isNone) = false ∧
      t.writing.store.calls = l.writing.store.calls ∨ Refused t.writing.store.calls) :
    BatchedTo d drop gauge n start front rest l (Load.conclude (.error f) t) := by
  obtain ⟨hfault, undone, released, hc⟩ := conclude_fault_calls f t
  unfold BatchedTo
  rw [hc] at granted ⊢
  refine ⟨h.batched comes fun batches hb => ?_, fun report hr => absurd hr (hfault report)⟩
  rcases stopped with ⟨ho, hcalls⟩ | ⟨c, hmem, hg⟩
  · rw [ho, if_neg nofun, List.map_append, hcalls, hb]
    rfl
  · exact absurd ⟨c, List.mem_append_left _ hmem, hg⟩ granted

theorem Points.batched_drained (h : Points d drop gauge n start)
    (comes : Load.upTo drop gauge front start = (.ok (), l))
    (closed : l.assembler.openFeature = none)
    (emptied : Emptied l.writing.writer l.writing.store.calls TableKind.all t.writing)
    (granted : ¬ Refused (Load.conclude (.ok l.assembler.counts) t).2.writing.store.calls) :
    BatchedTo d drop gauge n start front [] l (Load.conclude (.ok l.assembler.counts) t) := by
  have hl := h.resting front l comes
  have done := conclude_counts l.assembler.counts t.writing.writer t.writing.store.calls t
    ⟨rfl, rfl⟩
  rcases hc : (Load.conclude (.ok l.assembler.counts) t :
    Except LoadFault Report × Load (Logged σ) ω) with ⟨f | report, u⟩
  all_goals rw [hc] at done granted
  · exact absurd done granted
  · obtain ⟨rfl, hcalls⟩ := done
    obtain ⟨more, hmore, hbatches⟩ := emptied.stored
    refine ⟨h.batched comes fun batches hb => ?_, ?_⟩
    · rw [closed, hcalls, hmore, List.map_append, hb, hbatches.1, hl.shipping.dataset,
        if_pos (show (_ && _) = true from rfl)]
      simp only [script, List.flatMap_append, List.append_assoc]
    · rintro _ ⟨⟩ k
      rw [Report.totals_ofWriter, emptied.flushes _ (TableKind.mem_all _)]
      change _ = (l.assembler.counts.ofKind k + n - 1) / n
      rw [hl.shipping.counted k, div_batches (hl.own k)]
      simp only [Array.isEmpty_iff_size_eq_zero]

omit [Store σ] [Watcher ω] in
theorem rows_of_insert {batches : List Batch} {k : TableKind} {table : String} {rows : List Row}
    (h : Request.insert k table rows ∈ script d drop batches) : ∃ b ∈ batches, rows = b.2 := by
  rw [script, List.mem_append, List.mem_flatMap] at h
  rcases h with h | ⟨b, hb, h⟩
  · exact absurd rfl (not_insert_opening h)
  · simp only [batchRequests, List.mem_cons, List.not_mem_nil, or_false, Request.insert.injEq] at h
    rcases h with ⟨-, -, rfl⟩ | h | h
    · exact ⟨b, hb, rfl⟩
    · cases h
    · cases h

omit [Store σ] [Watcher ω] in
theorem Writer.rows_of_batchesOf {w : Writer} {ks : List TableKind} {b : Batch}
    (h : b ∈ w.batchesOf ks) : b.2 ≠ [] := by
  obtain ⟨k, -, hk⟩ := List.mem_filterMap.mp h
  split at hk
  · cases hk
  · next he =>
    cases hk
    simpa using he

theorem Batched.rows_ne_nil {calls : List Call}
    (h : Batched d drop gauge n start front rest l calls) (hn : 0 < n) {c : Call} (hc : c ∈ calls)
    {k : TableKind} {table : String} {rows : List Row} (hr : c.request = .insert k table rows) :
    rows ≠ [] := by
  obtain ⟨batches, hfull, -, hcalls⟩ := h.stored
  have hm : Request.insert k table rows ∈ calls.map Call.request := hr ▸ List.mem_map_of_mem hc
  have full {b : Batch} (hb : b ∈ batches) : b.2 ≠ [] :=
    List.ne_nil_of_length_pos (Nat.lt_of_lt_of_le hn (hfull b hb).enough)
  rw [hcalls] at hm
  split at hm
  -- A batch is full, or it is one of those that the end of the document leaves.
  all_goals
    rw [List.mem_append] at hm
    rcases hm with hm | hm
    · obtain ⟨b, hb, rfl⟩ := rows_of_insert hm
      first
        | exact full hb
        | exact (List.mem_append.mp hb).elim full Writer.rows_of_batchesOf
    · simp at hm

theorem Points.batched_run (h : Points d drop gauge n start) (hn : 0 < n)
    (furthest : Load.Furthest drop gauge items start front rest l)
    (granted : ¬ Refused (Load.run drop gauge items start).2.writing.store.calls) :
    BatchedTo d drop gauge n start front rest l (Load.run drop gauge items start) := by
  have comes := furthest.comes
  cases rest with
  | cons i after =>
    -- An item that cannot be taken stores no batch.
    obtain ⟨i', after', f, t, he, ht, hrun⟩ := furthest.run_of_rest (List.cons_ne_nil i after)
    rw [hrun] at granted ⊢
    have stuck := take_resting hn gauge i' l ⟨h.resting front l comes, rfl⟩
    rw [ht] at stuck
    exact h.batched_failed comes granted (Or.imp (fun hc => ⟨rfl, hc⟩) id stuck)
  | nil =>
    have hrun := furthest.run_of_drain
    have drained := drain_emptied l l rfl
    rcases hd : (Load.drain l : Except LoadFault Counts × Load (Logged σ) ω) with ⟨f | counts, t⟩
    all_goals rw [hd] at hrun drained
    all_goals rw [hrun] at granted ⊢
    · refine h.batched_failed comes granted (Or.imp (fun hc => ⟨?_, hc.2⟩) id drained)
      obtain ⟨_, hsome⟩ := Option.ne_none_iff_exists'.mp hc.1
      rw [hsome]
      rfl
    · obtain ⟨closed, rfl, emptied⟩ := drained
      exact h.batched_drained comes closed emptied granted

/-- Whatever is loaded, if no call is refused: no batch is empty; in the end features' own tables
took as many flushes as their rows fill, the last one in part; and a load that makes its tables comes
to a last point, up to which and from which its batches are told. -/
theorem load_fills_batches (i : Input) (s : σ) (base : String) (w : ω) (options : Options)
    (granted : ∀ c ∈ (load i (Logged.mk s []) base w options).store.calls, c.granted = true) :
    let x := load i (Logged.mk s []) base w options
    let n := options.batchSize
    (∀ c ∈ x.store.calls, ∀ k table rows, c.request = .insert k table rows → rows ≠ []) ∧
    (∀ report, x.result = .ok report → ∀ k : FeatureKind,
      (report.totals.get (.ofFeature k)).flushes = (report.counts.ofKind k + n - 1) / n) ∧
    ((∃ f, x = { result := .error f, store := .mk s [], watcher := w }) ∨
      ∃ d items lines, Dataset.ofBase base = .ok d ∧ i.items options.encoding = .ok items ∧
        let start := Load.initial d i (Logged.mk s []) w options lines
        x = .ofEnd (Load.run options.dropExisting i.gauge items start) ∧
        ((∃ f l, Load.upTo options.dropExisting i.gauge [] start = (.error f, l) ∧
            ∀ c ∈ x.store.calls, c.request.method ≠ .insert) ∨
          ∃ front rest l, Load.Furthest options.dropExisting i.gauge items start front rest l ∧
            Batched d options.dropExisting i.gauge n start front rest l x.store.calls)) := by
  intro x n
  have refused : ¬ Refused x.store.calls := by
    rintro ⟨c, hc, hg⟩
    rw [granted c hc] at hg
    cases hg
  have hn : 0 < n := options.batchSize_pos
  rcases load_cases i (Logged.mk s []) base w options with
    ⟨f, hx⟩ | ⟨d, items, lines, hd, hi, hx, h⟩
  · refine ⟨?_, ?_, Or.inl ⟨f, hx⟩⟩
    · rw [show x = _ from hx]
      exact fun c hc => nomatch hc
    · rw [show x = _ from hx]
      exact fun report hr => nomatch hr
  have unfilled : Unfilled d n (.initial d i (Logged.mk s []) w options lines) :=
    ⟨rfl, rfl, nofun⟩
  rcases h with ⟨f, l, hopen⟩ | ⟨front, rest, l, furthest⟩
  · -- Without tables no batch is stored.
    have hrun : Load.run options.dropExisting i.gauge items _ = _ := Load.run_of_unopened hopen
    obtain ⟨hfault, undone, released, hc⟩ := conclude_fault_calls f l
    have opened := upTo_nil_unfilled options.dropExisting i.gauge _ unfilled
    rw [hopen] at opened
    have unstored : ∀ c ∈ x.store.calls, c.request.method ≠ .insert := by
      intro c hm
      rw [show x = _ from hx, hrun, Outcome.ofEnd, hc, List.mem_append] at hm
      rcases hm with hm | hm
      · exact opened.unstored c hm
      · simp only [List.mem_cons, List.not_mem_nil, or_false] at hm
        rcases hm with rfl | rfl <;> exact nofun
    refine ⟨fun c hm k table rows hr => absurd (by rw [hr]; rfl) (unstored c hm),
      fun report hr => absurd ?_ (hfault report),
      Or.inr ⟨d, items, lines, hd, hi, hx, Or.inl ⟨f, l, hopen, unstored⟩⟩⟩
    rw [show x = _ from hx, hrun] at hr
    exact hr
  · have points := unfilled.points rfl hn options.dropExisting i.gauge
    rw [show x = _ from hx] at refused
    obtain ⟨batched, flushes⟩ := points.batched_run hn furthest refused
    rw [show x = _ from hx]
    exact ⟨fun c hc k table rows hr => batched.rows_ne_nil hn hc hr, flushes,
      Or.inr ⟨d, items, lines, hd, hi, rfl, Or.inr ⟨front, rest, l, furthest, batched⟩⟩⟩

/-- Of three ways two are stored while the document is read, and the third one at the end. -/
theorem load_fills_batches_of_three_ways :
    let text := Input.ofText "<way id=\"1\"/><way id=\"2\"/><way id=\"3\"/>"
    let x := load text (Logged.mk ({} : Memory) []) "t" Unwatched.mk { batchSize := 2 }
    (∀ c ∈ x.store.calls, c.granted = true) ∧ ∃ report, x.result = .ok report ∧
      report.counts.ways = 3 ∧ (report.totals.get .way).flushes = 2 := by
  intro text x
  have granted : ∀ c ∈ x.store.calls, c.granted = true := by decide +kernel
  have counted : x.result.toOption.map (fun r => r.counts.ways) = some 3 := by decide +kernel
  obtain ⟨report, hr, hways⟩ := Option.map_eq_some_iff.mp counted
  have ok : x.result = .ok report := ok_of_toOption hr
  refine ⟨granted, report, ok, hways, ?_⟩
  have flushes := (load_fills_batches text ({} : Memory) "t" Unwatched.mk { batchSize := 2 }
    granted).2.1 report ok .way
  exact flushes.trans (by change (report.counts.ways + 2 - 1) / 2 = 2; rw [hways])

end

end MapTables
