import MapTables.Proofs.Input.Encoding
import MapTables.Proofs.Load.Protocol

/-!
# Loads keep to the protocol

Whatever a load is given and whatever its store answers, its calls are those of the protocol.
-/

namespace MapTables

variable {σ ω : Type} {d : Dataset} {drop : Bool} {requests : List Request} {batches : List Batch}

/-- The calls so far were these requests, and the load may go on. -/
structure Going (d : Dataset) (requests : List Request) (s : Writing (Logged σ)) : Prop where
  dataset : s.writer.dataset = d
  batchSize_pos : 0 < s.writer.batchSize
  passed : Passed requests s.store.calls

/-- Only taking back and letting go are left to do. -/
def Stopping (d : Dataset) (drop : Bool) (s : Writing (Logged σ)) : Prop :=
  Scripted d drop s.store.calls ∨ Halted d drop s.store.calls

def Steady (d : Dataset) (drop : Bool) (s : Writing (Logged σ)) : Prop :=
  ∃ batches : List Batch, (∀ b ∈ batches, b.2 ≠ []) ∧ Going d (script d drop batches) s

theorem Steady.stopping {s : Writing (Logged σ)} (h : Steady d drop s) : Stopping d drop s := by
  obtain ⟨batches, hb, hg⟩ := h
  exact Or.inl ⟨batches, hb, hg.passed⟩

/-! ## Single requests -/

section

variable [Store σ] (hb : ∀ b ∈ batches, b.2 ≠ [])
include hb

/-- The next request of a script takes the load further or stops it. -/
theorem Going.ask (r : Request) (fault : StoreFault → LoadFault)
    (hs : requests ++ [r] <+: script d drop batches) :
    Triple (Going d requests) (Writing.ask r fault : WritingM (Logged σ) r.Answer)
      (fun a s => if (Call.mk r (.ok a)).passes then Going d (requests ++ [r]) s
        else Stopping d drop s)
      (fun _ => Stopping d drop) := by
  refine Triple.of_state fun s h => ?_
  refine Triple.bind ((Logged.reply_spec r s).weaken (fun _ h => h) (fun _ _ h => h) ?_) ?_
  · exact fun _ _ h => h.elim
  · rintro (f | a)
    · refine Triple.throw fun t ht => Or.inr ⟨batches, _, hb, hs, ?_⟩
      rw [ht.2]
      exact h.passed.fail (by cases r <;> rfl)
    · refine Triple.pure fun t ht => ?_
      split
      · next hp =>
        refine ⟨by rw [ht.1]; exact h.dataset, by rw [ht.1]; exact h.batchSize_pos, ?_⟩
        rw [ht.2]
        exact h.passed.concat hp
      · next hp =>
        refine Or.inr ⟨batches, _, hb, hs, ?_⟩
        rw [ht.2]
        exact h.passed.fail (by simpa using hp)

theorem Going.ask_granted (r : Request) (fault : StoreFault → LoadFault)
    (hs : requests ++ [r] <+: script d drop batches)
    (hr : ∀ a, (Call.mk r (.ok a)).passes = true) :
    Triple (Going d requests) (Writing.ask r fault : WritingM (Logged σ) r.Answer)
      (fun _ => Going d (requests ++ [r])) (fun _ => Stopping d drop) := by
  refine (Going.ask hb r fault hs).weaken (fun _ h => h) (fun a s h => ?_) fun _ _ h => h
  rw [if_pos (hr a)] at h
  exact h

omit [Store σ] hb in
theorem Going.forM {α : Type} {f : α → LoadM (Logged σ) ω PUnit} {q : α → Request} (l : List α)
    (hs : requests ++ l.map q <+: script d drop batches)
    (hf : ∀ a requests, requests ++ [q a] <+: script d drop batches →
      Triple (fun l => Going d requests l.writing) (f a)
        (fun _ l => Going d (requests ++ [q a]) l.writing) (fun _ l => Stopping d drop l.writing)) :
    Triple (fun l => Going d requests l.writing) (l.forM f)
      (fun _ l' => Going d (requests ++ l.map q) l'.writing)
      (fun _ l => Stopping d drop l.writing) := by
  refine (Triple.forM (I := fun before l' => Going d (requests ++ before.map q) l'.writing) l
    ?_).weaken (by simp) (fun _ _ h => h) (fun _ _ h => h)
  rintro before a after rfl
  refine (hf a _ (List.IsPrefix.trans ⟨after.map q, ?_⟩ hs)).weaken (fun _ h => h)
    (fun _ _ h => ?_) fun _ _ h => h
  · simp
  · simpa using h

end

/-! ## Batches -/

variable [Store σ]

theorem script_concat (d : Dataset) (drop : Bool) (batches : List Batch) (b : Batch) :
    script d drop (batches ++ [b]) = script d drop batches ++ batchRequests d b := by
  simp [script]

theorem flush_steady (k : TableKind) :
    Triple (fun s : Writing (Logged σ) => Steady d drop s ∧ (s.writer.pending k).toList ≠ [])
      (Writing.flush k) (fun _ => Steady d drop) (fun _ => Stopping d drop) := by
  unfold Writing.flush
  refine Triple.get_bind fun s ⟨⟨batches, hb, hg⟩, hk⟩ => ?_
  obtain rfl := hg.dataset
  simp only
  generalize (s.writer.pending k).toList = rows at hk
  generalize s.writer.dataset = d at hg ⊢
  have hb' : ∀ b ∈ batches ++ [(k, rows)], b.2 ≠ [] := by
    intro b hmem
    rw [List.mem_append, List.mem_singleton] at hmem
    rcases hmem with hmem | rfl
    · exact hb b hmem
    · exact hk
  have hs := script_concat d drop batches (k, rows)
  have inserted : Triple (Going d (script d drop batches))
      (Writing.ask (.insert k (d.tableName k) rows) (.notWritten (d.tableName k)) :
        WritingM (Logged σ) Stored)
      (fun _ => Going d (script d drop batches ++ [.insert k (d.tableName k) rows]))
      (fun _ => Stopping d drop) := by
    refine Going.ask_granted hb' (.insert k (d.tableName k) rows) _ ?_ fun _ => rfl
    rw [hs]
    exact ⟨[.commit, .beginTransaction], by simp [batchRequests]⟩
  refine Triple.bind (inserted.weaken (by rintro _ rfl; exact hg) (fun _ _ h => h) fun _ _ h => h)
    fun stored => ?_
  refine Triple.bind (Going.ask_granted hb' .commit _ ?_ fun _ => rfl) fun _ => ?_
  · rw [hs]; exact ⟨[.beginTransaction], by simp [batchRequests]⟩
  refine Triple.bind (Going.ask_granted hb' .beginTransaction _ ?_ fun _ => rfl) fun _ => ?_
  · rw [hs]; exact ⟨[], by simp [batchRequests]⟩
  refine Triple.bind (Q := fun _ => Going d (script d drop (batches ++ [(k, rows)])))
    (Triple.modify fun t ht => ?_) fun _ => Triple.modify fun t ht => ?_
  · rw [hs]
    refine ⟨ht.dataset, ht.batchSize_pos, ?_⟩
    simpa [batchRequests] using ht.passed
  · exact ⟨_, hb', ht.dataset, ht.batchSize_pos, ht.passed⟩

theorem poll_steady :
    Triple (Steady d drop) (Writing.poll : WritingM (Logged σ) Unit) (fun _ => Steady d drop)
      (fun _ => Stopping d drop) := by
  refine Triple.forM (I := fun _ => Steady d drop) TableKind.all fun _ k _ _ => ?_
  refine Triple.bind (Q := fun _ => Steady d drop) ?_ fun _ => Triple.pure fun _ h => h
  unfold Writing.flushIfDue
  refine Triple.get_bind fun s hs => ?_
  split
  · next hdue =>
    refine Triple.bind (Q := fun _ => Steady d drop) ?_ fun _ => Triple.pure fun _ h => h
    refine (flush_steady k).weaken ?_ (fun _ _ h => h) fun _ _ h => h
    rintro _ rfl
    refine ⟨hs, fun hn => ?_⟩
    -- A batch has a row at least, so an empty one is never due.
    obtain ⟨batches, -, hg⟩ := hs
    have := hg.batchSize_pos
    unfold Writer.isDue at hdue
    rw [decide_eq_true_eq, ← Array.length_toList, hn] at hdue
    simp only [List.length_nil] at hdue
    omega
  · exact Triple.pure fun _ h => h ▸ hs

theorem flushAll_steady :
    Triple (Steady d drop) (Writing.flushAll : WritingM (Logged σ) Unit) (fun _ => Steady d drop)
      (fun _ => Stopping d drop) := by
  refine Triple.forM (I := fun _ => Steady d drop) TableKind.all fun _ k _ _ => ?_
  refine Triple.get_bind fun s hs => ?_
  split
  · exact Triple.pure fun _ h => h ▸ hs
  · next hk =>
    refine (flush_steady k).weaken ?_ (fun _ _ h => h) fun _ _ h => h
    rintro _ rfl
    exact ⟨hs, by simpa using hk⟩

/-! ## Whole loads -/

section

variable (hb : ∀ b ∈ batches, b.2 ≠ [])
include hb

theorem dropTables_going
    (hs : requests ++ d.tableNames.map Request.dropTable <+: script d drop batches) :
    Triple (fun l : Load (Logged σ) ω => Going d requests l.writing) Load.dropTables
      (fun _ l => Going d (requests ++ d.tableNames.map Request.dropTable) l.writing)
      (fun _ l => Stopping d drop l.writing) := by
  refine Triple.get_bind fun l hl => ?_
  obtain rfl := hl.dataset
  refine (Going.forM _ hs fun table front hf => ?_).weaken (fun _ h => h ▸ hl)
    (fun _ _ h => h) fun _ _ h => h
  exact Load.byWriter_spec fun l h =>
    Going.ask_granted hb (.dropTable table) _ hf (fun _ => rfl) l.writing h

theorem checkTables_going
    (hs : requests ++ d.tableNames.map Request.tableExists <+: script d drop batches) :
    Triple (fun l : Load (Logged σ) ω => Going d requests l.writing) Load.checkTables
      (fun _ l => Going d (requests ++ d.tableNames.map Request.tableExists) l.writing)
      (fun _ l => Stopping d drop l.writing) := by
  refine Triple.get_bind fun first hl => ?_
  obtain rfl := hl.dataset
  refine (Going.forM _ hs fun table front hf => ?_).weaken (fun _ h => h ▸ hl)
    (fun _ _ h => h) fun _ _ h => h
  refine Triple.bind (Q := fun found l =>
      if (Call.mk (.tableExists table) (.ok found)).passes then
        Going first.writing.writer.dataset (front ++ [.tableExists table]) l.writing
      else Stopping first.writing.writer.dataset drop l.writing)
    (Load.byWriter_spec fun l h => Going.ask hb (.tableExists table) _ hf l.writing h)
    fun found => ?_
  -- A table that is there stops the load although the call was granted.
  cases found with
  | true => exact Triple.throw fun _ h => h
  | false => exact Triple.pure fun _ h => h

theorem createTables_going
    (hs : requests ++ d.tables.map (fun t => Request.createTable t.1 t.2) <+:
      script d drop batches) :
    Triple (fun l : Load (Logged σ) ω => Going d requests l.writing) Load.createTables
      (fun _ l => Going d (requests ++ d.tables.map fun t => Request.createTable t.1 t.2) l.writing)
      (fun _ l => Stopping d drop l.writing) := by
  refine Triple.get_bind fun l hl => ?_
  obtain rfl := hl.dataset
  refine (Going.forM _ hs fun t front hf => ?_).weaken (fun _ h => h ▸ hl)
    (fun _ _ h => h) fun _ _ h => h
  exact Load.byWriter_spec fun l h =>
    Going.ask_granted hb (.createTable t.1 t.2) _ hf (fun _ => rfl) l.writing h

end

theorem openTables_going :
    Triple (fun l : Load (Logged σ) ω => Going d [] l.writing) (Load.openTables drop)
      (fun _ l => Going d (script d drop []) l.writing) (fun _ l => Stopping d drop l.writing) := by
  have hb : ∀ b ∈ ([] : List Batch), b.2 ≠ [] := nofun
  have made (front : List Request) (hs : script d drop [] = front ++
      d.tableNames.map Request.tableExists ++ d.tables.map (fun t => Request.createTable t.1 t.2) ++
        [.beginTransaction]) :
      Triple (fun l : Load (Logged σ) ω => Going d front l.writing)
        (do Load.checkTables
            Load.createTables
            Load.ask .beginTransaction (.refused .beginTransaction))
        (fun _ l => Going d (script d drop []) l.writing) (fun _ l => Stopping d drop l.writing) := by
    refine Triple.bind (checkTables_going hb (by rw [hs]; simp)) fun _ => ?_
    refine Triple.bind (createTables_going hb (by rw [hs]; exact List.prefix_append _ _)) fun _ => ?_
    refine Load.byWriter_spec fun l h => ?_
    refine (Going.ask_granted hb .beginTransaction _ (hs ▸ List.prefix_refl _) (fun _ => rfl) _ h).imp
      (fun _ t ht => ?_) fun _ _ h => h
    rw [hs]
    exact ht
  unfold Load.openTables
  cases drop with
  | true =>
    have hs : script d true [] = d.tableNames.map Request.dropTable ++ _ ++ _ ++ _ :=
      List.append_nil _
    exact Triple.bind (dropTables_going hb (by rw [hs]; simp)) fun _ => made _ hs
  | false => exact made [] (List.append_nil _)

theorem openTables_steady :
    Triple (fun l : Load (Logged σ) ω => Going d [] l.writing) (Load.openTables drop)
      (fun _ l => Steady d drop l.writing) (fun _ l => Stopping d drop l.writing) :=
  openTables_going.weaken (fun _ h => h) (fun _ _ h => ⟨[], nofun, h⟩) fun _ _ h => h

theorem consume_steady [Watcher ω] (gauge : Gauge) (items : List Item) :
    Triple (fun l : Load (Logged σ) ω => Steady d drop l.writing) (Load.consume gauge items)
      (fun _ l => Steady d drop l.writing) (fun _ l => Stopping d drop l.writing) := by
  refine Load.consume_apart ?_ (fun _ _ h => h.stopping) gauge items ?_ ?_
  · rintro l l' ⟨batches, hb, hd, hn, hp⟩ ⟨hs, hd', hn'⟩
    exact ⟨batches, hb, by rw [hd']; exact hd, by rw [hn']; exact hn, by rw [hs]; exact hp⟩
  · exact Load.byWriter_spec fun l h => poll_steady l.writing h
  · exact Load.byWriter_spec fun l h => flushAll_steady l.writing h

/-! ## The end -/

theorem reply_calls (r : Request) (calls : List Call) :
    Triple (fun l : Load (Logged σ) ω => l.writing.store.calls = calls) (Load.reply r)
      (fun a l => l.writing.store.calls = calls ++ [⟨r, a⟩]) (fun _ _ => False) := by
  refine Load.byWriter_spec fun l h => ?_
  exact (Logged.reply_spec r l.writing l.writing rfl).imp (fun a t ht => by rw [ht.2, h])
    fun _ _ h => h

theorem rollback_calls (calls : List Call) :
    Triple (fun l : Load (Logged σ) ω => l.writing.store.calls = calls) Load.rollback
      (fun _ l => ∃ c : Call, c.request = .rollback ∧ l.writing.store.calls = calls ++ [c])
      (fun _ _ => False) := by
  unfold Load.rollback
  refine Triple.bind (reply_calls .rollback calls) fun a => ?_
  cases a with
  | ok _ => exact Triple.pure fun l h => ⟨_, rfl, h⟩
  | error f => exact Load.sayAll_spec fun l h _ => ⟨_, rfl, h⟩

/-- The calls of a load that came to a result. -/
def Resulting (d : Dataset) (drop : Bool) (result : Except LoadFault Counts)
    (s : Writing (Logged σ)) : Prop :=
  match result with
  | .ok _ => Steady d drop s
  | .error _ => Stopping d drop s

def Settling (d : Dataset) (drop : Bool) (result : Except LoadFault Counts) (calls : List Call) :
    Prop :=
  match result with
  | .ok _ => ∃ body commit, Scripted d drop body ∧ commit.request = .commit ∧
      commit.passes = true ∧ calls = body ++ [commit]
  | .error _ => ∀ release : Call, release.request = .release →
      Protocol d drop (calls ++ [release]) false

theorem settle_calls (result : Except LoadFault Counts) :
    Triple (fun l : Load (Logged σ) ω => Resulting d drop result l.writing) (Load.settle result)
      (fun result l => Settling d drop result l.writing.store.calls) (fun _ _ => False) := by
  unfold Load.settle
  cases result with
  | error f =>
    refine Triple.of_state fun l h => ?_
    refine Triple.bind ((rollback_calls l.writing.store.calls).weaken (by rintro _ rfl; rfl)
      (fun _ _ h => h) fun _ _ h => h) fun _ => Triple.pure ?_
    rintro l' ⟨c, hc, he⟩ release hr
    rw [he, List.append_assoc]
    exact .aborted h hc hr
  | ok counts =>
    refine Triple.of_state fun l h => ?_
    have hscripted : Scripted d drop l.writing.store.calls := by
      obtain ⟨batches, hb, hg⟩ := h
      exact ⟨batches, hb, hg.passed⟩
    refine Triple.bind ((reply_calls .commit l.writing.store.calls).weaken (by rintro _ rfl; rfl)
      (fun _ _ h => h) fun _ _ h => h) fun a => ?_
    cases a with
    | ok _ => exact Triple.pure fun l' h' => ⟨_, _, hscripted, rfl, rfl, h'⟩
    | error f =>
      refine Triple.bind (rollback_calls _) fun _ => Triple.pure ?_
      rintro l' ⟨c, hc, he⟩ release hr
      rw [he, List.append_assoc, List.append_assoc]
      exact .uncommitted hscripted rfl rfl hc hr

theorem close_calls (result : Except LoadFault Counts) :
    Triple (fun l : Load (Logged σ) ω => Resulting d drop result l.writing) (Load.close result)
      (fun _ l => Protocol d drop l.writing.store.calls true)
      (fun _ l => Protocol d drop l.writing.store.calls false) := by
  unfold Load.close
  refine Triple.bind (Q := fun _ l => Resulting d drop result l.writing) (Load.enter_spec ?_)
    fun _ => ?_
  · intro l h lines
    cases result with
    | ok _ =>
      obtain ⟨batches, hb, hd, hn, hp⟩ := h
      exact ⟨batches, hb, hd, hn, hp⟩
    | error _ => exact h
  refine Triple.bind ((settle_calls result).weaken (fun _ h => h) (fun _ _ h => h)
    fun _ _ h => h.elim) fun settled => Triple.of_state fun l h => ?_
  refine Triple.bind ((reply_calls .release l.writing.store.calls).weaken (by rintro _ rfl; rfl)
    (fun _ _ h => h) fun _ _ h => h.elim) fun released => ?_
  cases settled with
  | ok counts =>
    obtain ⟨body, commit, hs, hc, hp, he⟩ := h
    have completed (a : Except StoreFault Unit) : Protocol d drop
        (l.writing.store.calls ++ [⟨.release, a⟩]) (Call.mk .release a).passes := by
      rw [he, List.append_assoc]
      exact .completed hs hc hp rfl
    cases released with
    | ok _ =>
      refine Triple.get_bind fun l' hl' => Triple.pure ?_
      rintro _ rfl
      rw [hl']
      exact completed (.ok ())
    | error f =>
      refine Triple.throw fun l' hl' => ?_
      rw [hl']
      exact completed (.error f)
  | error fault =>
    cases released with
    | ok _ =>
      refine Triple.throw fun l' hl' => ?_
      rw [hl']
      exact h _ rfl
    | error f =>
      refine Triple.bind (Q := fun _ l' => Protocol d drop l'.writing.store.calls false)
        (Load.sayAll_spec fun l' hl' _ => ?_) fun _ => Triple.throw fun _ h => h
      simp only [hl']
      exact h _ rfl

theorem run_calls [Watcher ω] (gauge : Gauge) (items : List Item) :
    Triple (fun l : Load (Logged σ) ω => Going d [] l.writing) (Load.run drop gauge items)
      (fun _ l => Protocol d drop l.writing.store.calls true)
      (fun _ l => Protocol d drop l.writing.store.calls false) := by
  unfold Load.run
  refine Triple.bind (Q := fun result l => Resulting d drop result l.writing)
    (Load.attempt_spec ?_) fun result => ?_
  · exact Triple.bind openTables_steady fun _ => consume_steady gauge items
  · exact Triple.bind (close_calls result) fun report =>
      Triple.bind (Load.sayAll_spec fun l h _ => h) fun _ => Triple.pure fun _ h => h

/-- Nothing is asked of a store: there is no dataset, no such encoding, or nothing to read. -/
def Input.Unstarted (i : Input) (base : String) (label : Option String) : Prop :=
  (∃ f, Dataset.ofBase base = .error f) ∨ (∃ l, label = some l ∧ Encoding.ofText? l = none) ∨
    (i.delivery.pieces = [] ∧ i.delivery.failure ≠ none)

theorem Input.items_eq_error_iff (i : Input) (label : Option String) :
    (∃ f, i.items label = .error f) ↔ (∃ l, label = some l ∧ Encoding.ofText? l = none) ∨
      (i.delivery.pieces = [] ∧ i.delivery.failure ≠ none) := by
  rw [← encoding_eq_error_iff]
  unfold Input.items Delivery.toUtf8
  cases i.delivery.encoding label with
  | error f => simp [bind, Except.bind, Except.map]
  | ok e =>
    simp only [bind, Except.bind]
    split <;> simp [pure, Except.pure, Except.map]

theorem load_calls [Watcher ω] {input : Input} {options : Options} {base : String}
    (hi : ∀ f, input.items options.encoding ≠ .error f) (hd : Dataset.ofBase base = .ok d)
    (store : σ) (w : ω) :
    Protocol d options.dropExisting (load input (Logged.mk store []) base w options).store.calls
      (load input (Logged.mk store []) base w options).result.isOk := by
  unfold load
  rw [hd]
  unfold Input.items at hi
  cases hu : input.delivery.toUtf8 input.codecs options.encoding with
  | error f => rw [hu] at hi; exact (hi f rfl).elim
  | ok r =>
    have hrun : Triple (fun l : Load (Logged σ) ω => Going d [] l.writing)
        (Load.run options.dropExisting input.gauge (Transcript.ofDelivery r.2).items) _ _ :=
      run_calls input.gauge _
    have hend := hrun {
      writing := {
        writer := { dataset := d, batchSize := options.batchSize }
        store := Logged.mk store []
        lines := #[Journal.debug s!"reading OSM input as {r.1.name}",
          Journal.info s!"ingesting OSM XML into tables {d.base}_*"] }
      monitor := .ofTotal input.total options.averageFeature
      watcher := w } ⟨rfl, options.batchSize_pos, rfl, nofun⟩
    unfold Ending at hend
    split at hend
    · next hr => simp only [hr]; exact hend
    · next hr => simp only [hr]; exact hend

/-- The calls of a load are none at all, or those of the protocol. So the store is let go once
and last, each batch comes in a transaction that the load began, and none is left open unless
taking back fails. -/
theorem load_follows_protocol [Watcher ω] (input : Input) (store : σ) (base : String) (w : ω)
    (options : Options) :
    (input.Unstarted base options.encoding →
      (load input (Logged.mk store []) base w options).store.calls = []) ∧
    (¬ input.Unstarted base options.encoding →
      ∃ d calls, Dataset.ofBase base = .ok d ∧
        (load input (Logged.mk store []) base w options).store.calls = calls ∧
        Protocol d options.dropExisting calls
          (load input (Logged.mk store []) base w options).result.isOk ∧
        (∃ before release, calls = before ++ [release] ∧ release.request = .release ∧
          ∀ c ∈ before, c.request.method ≠ .release) ∧
        (∀ before c after, calls = before ++ c :: after → c.request.method = .insert →
          inTransaction before = true) ∧
        ((∀ c ∈ calls, c.request = .rollback → c.granted = true) → inTransaction calls = false)) := by
  constructor
  · rintro (⟨f, hf⟩ | h)
    · unfold load
      rw [hf]
    · obtain ⟨f, hf⟩ := (input.items_eq_error_iff _).mpr h
      unfold load
      cases hd : Dataset.ofBase base with
      | error _ => rfl
      | ok d =>
        unfold Input.items at hf
        cases hu : input.delivery.toUtf8 input.codecs options.encoding with
        | error _ => rfl
        | ok r => rw [hu] at hf; cases hf
  · intro h
    unfold Input.Unstarted at h
    rw [not_or, ← Input.items_eq_error_iff] at h
    cases hd : Dataset.ofBase base with
    | error f => exact (h.1 ⟨f, hd⟩).elim
    | ok d =>
      have hp := load_calls (fun f hf => h.2 ⟨f, hf⟩) hd store w
      exact ⟨d, _, rfl, rfl, hp, hp.release_last, fun _ _ _ he hc => hp.insert_inTransaction he hc,
        hp.not_inTransaction⟩

end MapTables
