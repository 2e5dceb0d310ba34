import MapTables.Proofs.Load.Balance
import MapTables.Proofs.Load.Halves
import MapTables.Proofs.Load.Parts
import MapTables.Proofs.Load.Plain
import MapTables.Proofs.Store.Logged

/-!
# Rows that are sent

Whatever the store answers, a load puts into each kind of table the first of the rows that
accepted events come to, in their order, and in the end of a load that goes well all of them.
-/

namespace MapTables

variable {σ ω : Type}

def Request.rowsFor (k : TableKind) : Request → List Row
  | .insert j _ rows => if j = k then rows else []
  | _ => []

/-- The rows that calls put into a kind of table, whether they were granted or not. -/
def sentTo (k : TableKind) (calls : List Call) : List Row :=
  calls.flatMap fun c => c.request.rowsFor k

theorem sentTo_concat (k : TableKind) (calls : List Call) (c : Call) :
    sentTo k (calls ++ [c]) = sentTo k calls ++ c.request.rowsFor k := by
  simp [sentTo]

/-- Of the rows that were assembled the first ones were sent, table by table, and the others
wait. -/
def Divided (R : List Placed) (s : Writing (Logged σ)) : Prop :=
  ∀ k, rowsFor k R = sentTo k s.store.calls ++ (s.writer.pending k).toList

def Partly (R : List Placed) (s : Writing (Logged σ)) : Prop :=
  ∀ k, sentTo k s.store.calls <+: rowsFor k R

theorem Divided.partly {R : List Placed} {s : Writing (Logged σ)} (h : Divided R s) :
    Partly R s := fun k => ⟨_, (h k).symm⟩

theorem Divided.enqueueAll {R : List Placed} {s : Writing (Logged σ)} (h : Divided R s)
    (rows : List Placed) (lines : Journal) :
    Divided (R ++ rows) { s with writer := rows.foldl Writer.enqueue s.writer, lines } := by
  intro k
  simp only [rowsFor_append, Writer.pending_enqueueAll, h k, List.append_assoc]

/-! ## The writer's part -/

section

variable [Store σ] {R : List Placed}

theorem ask_sends (r : Request) (fault : StoreFault → LoadFault) (w : Writer)
    (sent : TableKind → List Row) :
    Triple (fun s : Writing (Logged σ) => s.writer = w ∧ ∀ k, sentTo k s.store.calls = sent k)
      (Writing.ask r fault)
      (fun _ s => s.writer = w ∧ ∀ k, sentTo k s.store.calls = sent k ++ r.rowsFor k)
      (fun _ s => s.writer = w ∧ ∀ k, sentTo k s.store.calls = sent k ++ r.rowsFor k) := by
  refine Triple.of_state fun s ⟨hw, hs⟩ => ?_
  refine Triple.bind (Q := fun _ t => t.writer = w ∧
    ∀ k, sentTo k t.store.calls = sent k ++ r.rowsFor k) ?_ fun a => ?_
  · refine (Logged.reply_spec r s).weaken (fun _ h => h) (fun a t ht => ?_) fun _ _ h => h.elim
    refine ⟨ht.1.trans hw, fun k => ?_⟩
    rw [ht.2, sentTo_concat, hs k]
  · cases a with
    | ok a => exact Triple.pure fun _ h => h
    | error f => exact Triple.throw fun _ h => h

def Flushing (k : TableKind) (s t : Writing (Logged σ)) : Prop :=
  t.writer = s.writer ∧ ∀ j, sentTo j t.store.calls =
    sentTo j s.store.calls ++ if k = j then (s.writer.pending k).toList else []

namespace Flushing

variable {k : TableKind} {s t : Writing (Logged σ)}

omit [Store σ] in
theorem partly (h : Flushing k s t) (hs : Divided R s) : Partly R t := by
  intro j
  rw [h.2 j, hs j, List.prefix_append_right_inj]
  split
  · next hk =>
    subst hk
    exact List.prefix_refl _
  · exact List.nil_prefix

omit [Store σ] in
theorem settled (h : Flushing k s t) (hs : Divided R s) (stored : Stored) :
    Divided R { t with writer := t.writer.settle k stored } := by
  intro j
  simp only [Writer.pending, h.1, h.2 j]
  by_cases hk : k = j
  · subst hk
    rw [if_pos rfl, Writer.settle_self, hs k]
    simp [Buffer.settle, Writer.pending]
  · rw [if_neg hk, Writer.settle_of_ne _ _ (Ne.symm hk), hs j]
    simp [Writer.pending]

theorem ask (r : Request) (hr : ∀ j, r.rowsFor j = []) (fault : StoreFault → LoadFault) :
    Triple (Flushing k s) (Writing.ask r fault) (fun _ => Flushing k s)
      (fun _ => Flushing k s) := by
  refine (ask_sends r fault s.writer _).weaken (fun _ h => h) ?_ ?_
  all_goals
    intro _ t ht
    refine ⟨ht.1, fun j => ?_⟩
    rw [ht.2 j, hr j, List.append_nil]

end Flushing

theorem flush_divided (k : TableKind) {s : Writing (Logged σ)} (hs : Divided R s) :
    Triple (· = s) (Writing.flush k)
      (fun _ t => Divided R t ∧ ∃ stored, t.writer = s.writer.settle k stored)
      (fun _ => Partly R) := by
  unfold Writing.flush
  refine Triple.get_bind fun s' hs' => ?_
  obtain rfl := hs'.symm
  have partly (f : LoadFault) (t : Writing (Logged σ)) (h : Flushing k s t) : Partly R t :=
    h.partly hs
  refine Triple.bind (Q := fun _ => Flushing k s) ?_ fun stored => ?_
  · refine (ask_sends _ _ s.writer fun j => sentTo j s.store.calls).weaken ?_
      (fun _ _ h => h) partly
    rintro _ rfl
    exact ⟨rfl, fun _ => rfl⟩
  refine Triple.bind ((Flushing.ask .commit (fun _ => rfl) _).weaken (fun _ h => h)
    (fun _ _ h => h) partly) fun _ => ?_
  refine Triple.bind ((Flushing.ask .beginTransaction (fun _ => rfl) _).weaken (fun _ h => h)
    (fun _ _ h => h) partly) fun _ => ?_
  refine Triple.bind (Q := fun _ => Flushing k s) (Triple.modify fun _ h => h)
    fun _ => Triple.modify fun t ht => ⟨ht.settled hs stored, stored, ?_⟩
  simp only [ht.1]

theorem poll_divided :
    Triple (Divided R) (Writing.poll : WritingM (Logged σ) Unit) (fun _ => Divided R)
      (fun _ => Partly R) := by
  refine Triple.forM (I := fun _ => Divided R) TableKind.all fun _ k _ _ => ?_
  refine Triple.bind (Q := fun _ => Divided R) ?_ fun _ => Triple.pure fun _ h => h
  unfold Writing.flushIfDue
  refine Triple.get_bind fun s hs => ?_
  split
  · refine Triple.bind (Q := fun _ => Divided R) ?_ fun _ => Triple.pure fun _ h => h
    exact (flush_divided k hs).weaken (fun _ h => h) (fun _ _ h => h.1) fun _ _ h => h
  · exact Triple.pure fun _ h => h ▸ hs

theorem flushAll_divided :
    Triple (Divided R) (Writing.flushAll : WritingM (Logged σ) Unit)
      (fun _ s => ∀ k, sentTo k s.store.calls = rowsFor k R) (fun _ => Partly R) := by
  refine (Triple.forM
    (I := fun front s => Divided R s ∧ ∀ k ∈ front, (s.writer.pending k).toList = [])
    TableKind.all fun front k after _ => ?_).weaken (fun _ h => ⟨h, nofun⟩) ?_ fun _ _ h => h
  · refine Triple.get_bind fun s ⟨hs, hfront⟩ => ?_
    have concat {t : Writing (Logged σ)} (hk : (t.writer.pending k).toList = [])
        (ht : ∀ j, j ≠ k → t.writer.pending j = s.writer.pending j) :
        ∀ j ∈ front ++ [k], (t.writer.pending j).toList = [] := by
      intro j hj
      by_cases hjk : j = k
      · rw [hjk, hk]
      · rw [List.mem_append, List.mem_singleton] at hj
        rw [ht j hjk, hfront j (hj.resolve_right hjk)]
    split
    · next he =>
      refine Triple.pure fun t ht => ?_
      subst ht
      exact ⟨hs, concat (by simpa using he) fun _ _ => rfl⟩
    · refine (flush_divided k hs).weaken (fun _ h => h) ?_ fun _ _ h => h
      rintro _ t ⟨hd, stored, hw⟩
      refine ⟨hd, concat ?_ fun j hj => ?_⟩
      · rw [hw, Writer.pending, Writer.settle_self]
        rfl
      · rw [hw, Writer.pending, Writer.settle_of_ne _ _ hj, Writer.pending]
  · rintro _ s ⟨hd, he⟩ k
    rw [hd k, he k k.mem_all, List.append_nil]

end

/-! ## Whole loads -/

/-- The calls put into the tables the first rows that accepted items come to. -/
def SentFrom (items : List Item) (calls : List Call) : Prop :=
  ∃ front a R, front <+: items ∧ ({} : Assembler).takeAll front = .ok (a, R) ∧
    ∀ k, sentTo k calls <+: rowsFor k R

def Taking (before : List Item) (l : Load (Logged σ) ω) : Prop :=
  ∃ R, ({} : Assembler).takeAll before = .ok (l.assembler, R) ∧ Divided R l.writing

theorem Taking.sentFrom {before items : List Item} {l : Load (Logged σ) ω} (h : Taking before l)
    (hb : before <+: items) : SentFrom items l.writing.store.calls := by
  obtain ⟨R, ht, hd⟩ := h
  exact ⟨before, _, R, hb, ht, hd.partly⟩

theorem Taking.still {before : List Item} (l l' : Load (Logged σ) ω) (h : Taking before l)
    (hs : Load.Still l l') : Taking before l' := by
  obtain ⟨R, ht, hd⟩ := h
  refine ⟨R, by rw [hs.assembler]; exact ht, fun k => ?_⟩
  rw [hs.store, hs.writer]
  exact hd k

section

variable {items before after : List Item} {i : Item}

theorem assemble_taking {e : Event} (hl : items = before ++ i :: after) (hi : i.what = .ok e) :
    Triple (Taking before) (Load.assemble e : LoadM (Logged σ) ω Change)
      (fun _ => Taking (before ++ [i])) (fun _ l => SentFrom items l.writing.store.calls) := by
  refine Load.assemble_ends (fun l f h _ => h.sentFrom ⟨_, hl.symm⟩) ?_
  rintro l s lines ⟨R, ht, hd⟩ hs
  exact ⟨R ++ s.rows, Assembler.takeAll_concat ht hi hs, hd.enqueueAll s.rows lines⟩

variable [Store σ]

theorem ask_taking (r : Request) (hr : ∀ k, r.rowsFor k = []) (fault : StoreFault → LoadFault) :
    Triple (Taking before) (Load.ask r fault : LoadM (Logged σ) ω r.Answer)
      (fun _ => Taking before) (fun _ => Taking before) := by
  refine Load.byWriter_spec fun l ⟨R, ht, hd⟩ => ?_
  have kept (t : Writing (Logged σ)) (h : t.writer = l.writing.writer ∧
      ∀ k, sentTo k t.store.calls = sentTo k l.writing.store.calls ++ r.rowsFor k) :
      Divided R t := by
    intro k
    rw [h.1, h.2 k, hr k, List.append_nil]
    exact hd k
  refine (ask_sends r fault l.writing.writer (fun k => sentTo k l.writing.store.calls) l.writing
    ⟨rfl, fun _ => rfl⟩).imp ?_ ?_
  all_goals exact fun _ t h => ⟨R, ht, kept t h⟩

theorem openTables_taking (drop : Bool) :
    Triple (Taking []) (Load.openTables drop : LoadM (Logged σ) ω Unit) (fun _ => Taking [])
      (fun _ => Taking []) := by
  refine Load.openTables_keeps (fun r fault hr => ask_taking r (fun k => ?_) fault) drop
  cases r with
  | insert => exact absurd rfl hr
  | _ => rfl

variable [Watcher ω]

theorem take_taking (gauge : Gauge) (hl : items = before ++ i :: after) :
    Triple (Taking before) (Load.take gauge i : LoadM (Logged σ) ω Unit)
      (fun _ => Taking (before ++ [i])) (fun _ l => SentFrom items l.writing.store.calls) := by
  unfold Load.take
  have hb : before <+: items := ⟨_, hl.symm⟩
  split
  · exact Triple.throw fun l h => h.sentFrom hb
  · next e hi =>
    refine Load.takeEvent_still Taking.still (Load.cancel_quits ?_) ?_
    · rintro _ ⟨l, lines, h, rfl⟩
      exact h.sentFrom hb
    · refine Load.passEvent_spec (assemble_taking hl hi) (fun k => ?_) fun _ _ _ h => h
      refine Triple.bind (Q := fun _ => Taking (before ++ [i])) (Load.byWriter_spec ?_) fun _ =>
        Load.count_still Taking.still gauge i.drawn
      rintro l ⟨R, ht, hd⟩
      refine (poll_divided l.writing hd).imp (fun _ t h => ⟨R, ht, h⟩) fun _ t h => ?_
      exact ⟨before ++ [i], _, R, ⟨after, by simp [hl]⟩, ht, h⟩

def SentAll (items : List Item) (counts : Counts) (calls : List Call) : Prop :=
  ∃ R, assembled items = .ok (counts, R) ∧ ∀ k, sentTo k calls = rowsFor k R

theorem consume_taking (gauge : Gauge) (items : List Item) :
    Triple (Taking []) (Load.consume gauge items : LoadM (Logged σ) ω Counts)
      (fun counts l => SentAll items counts l.writing.store.calls)
      (fun _ l => SentFrom items l.writing.store.calls) := by
  unfold Load.consume
  refine Triple.bind (Load.enter_still Taking.still) fun _ => ?_
  refine Triple.bind (Triple.forM items fun before i after hl => take_taking gauge hl) fun _ => ?_
  unfold Load.drain
  refine Triple.get_bind fun l h => ?_
  split
  · refine Triple.throw ?_
    rintro _ rfl
    exact h.sentFrom (List.prefix_refl _)
  · next counts hf =>
    obtain ⟨R, ht, hd⟩ := h
    have hp : assembled items = .ok (counts, R) :=
      assembled_eq_ok.mpr ⟨l.assembler, ht, Assembler.finish_eq_ok.mp hf⟩
    refine Triple.bind (Q := fun _ l' => Divided R l'.writing) (Load.enter_spec ?_) fun _ => ?_
    · rintro _ rfl lines
      exact hd
    refine Triple.bind (Q := fun _ l' => SentAll items counts l'.writing.store.calls)
      (Load.byWriter_spec fun l' hd => ?_) fun _ => ?_
    · refine (flushAll_divided l'.writing hd).imp (fun _ t h => ⟨R, hp, h⟩) fun _ t h => ?_
      exact ⟨items, _, R, List.prefix_refl _, ht, h⟩
    refine Triple.bind (Load.countLast_still ?_) fun _ => Triple.pure fun _ h => h
    intro l l' h hs
    rw [hs.store]
    exact h

end

/-! ## The end -/

def Sends (items : List Item) (result : Except LoadFault Counts) (calls : List Call) : Prop :=
  match result with
  | .ok counts => SentAll items counts calls
  | .error _ => SentFrom items calls

theorem SentAll.sentFrom {items : List Item} {counts : Counts} {calls : List Call}
    (h : SentAll items counts calls) : SentFrom items calls := by
  obtain ⟨R, hp, hs⟩ := h
  obtain ⟨a, ht, -⟩ := assembled_eq_ok.mp hp
  exact ⟨items, a, R, List.prefix_refl _, ht, fun k => hs k ▸ List.prefix_refl _⟩

section

variable [Store σ] {items : List Item} {result : Except LoadFault Counts}

theorem Sends.concat {calls : List Call} {c : Call} (h : Sends items result calls)
    (hc : ∀ k, c.request.rowsFor k = []) : Sends items result (calls ++ [c]) := by
  have same (k : TableKind) : sentTo k (calls ++ [c]) = sentTo k calls := by
    rw [sentTo_concat, hc, List.append_nil]
  unfold Sends SentAll SentFrom at h ⊢
  simp only [same]
  exact h

theorem reply_sends (r : Request) (hr : ∀ k, r.rowsFor k = []) :
    Triple (fun l : Load (Logged σ) ω => Sends items result l.writing.store.calls) (Load.reply r)
      (fun _ l => Sends items result l.writing.store.calls) (fun _ _ => False) := by
  refine Load.byWriter_spec fun l h => ?_
  refine (Logged.reply_spec r l.writing l.writing rfl).imp (fun a t ht => ?_) fun _ _ h => h
  rw [ht.2]
  exact h.concat hr

theorem rollback_sends :
    Triple (fun l : Load (Logged σ) ω => Sends items result l.writing.store.calls) Load.rollback
      (fun _ l => Sends items result l.writing.store.calls) (fun _ _ => False) := by
  refine Triple.bind (reply_sends .rollback fun _ => rfl) fun a => ?_
  cases a with
  | ok _ => exact Triple.pure fun _ h => h
  | error f => exact Load.sayAll_spec fun l h _ => h

theorem settle_sends (result : Except LoadFault Counts) :
    Triple (fun l : Load (Logged σ) ω => Sends items result l.writing.store.calls)
      (Load.settle result) (fun result l => Sends items result l.writing.store.calls)
      (fun _ _ => False) := by
  cases result with
  | error f => exact Triple.bind rollback_sends fun _ => Triple.pure fun _ h => h
  | ok counts =>
    refine Triple.bind (reply_sends .commit fun _ => rfl) fun a => ?_
    cases a with
    | ok _ => exact Triple.pure fun _ h => h
    | error f =>
      exact Triple.bind rollback_sends fun _ => Triple.pure fun _ h => SentAll.sentFrom h

theorem close_sends (result : Except LoadFault Counts) :
    Triple (fun l : Load (Logged σ) ω => Sends items result l.writing.store.calls)
      (Load.close result) (fun report l => SentAll items report.counts l.writing.store.calls)
      (fun _ l => SentFrom items l.writing.store.calls) := by
  refine Triple.bind (Q := fun _ l => Sends items result l.writing.store.calls)
    (Load.enter_spec fun l h _ => h) fun _ => ?_
  refine Triple.bind ((settle_sends result).weaken (fun _ h => h) (fun _ _ h => h)
    fun _ _ h => h.elim) fun settled => ?_
  refine Triple.bind ((reply_sends .release fun _ => rfl).weaken (fun _ h => h) (fun _ _ h => h)
    fun _ _ h => h.elim) fun released => ?_
  cases settled with
  | ok counts =>
    cases released with
    | ok _ =>
      refine Triple.get_bind fun l h => Triple.pure ?_
      rintro _ rfl
      exact h
    | error f => exact Triple.throw fun _ h => SentAll.sentFrom h
  | error fault =>
    cases released with
    | ok _ => exact Triple.throw fun _ h => h
    | error f =>
      exact Triple.bind (Load.sayAll_spec fun l h _ => h) fun _ => Triple.throw fun _ h => h

variable [Watcher ω]

theorem run_sends (drop : Bool) (gauge : Gauge) (items : List Item) :
    Triple (Taking []) (Load.run drop gauge items : LoadM (Logged σ) ω Report)
      (fun report l => SentAll items report.counts l.writing.store.calls)
      (fun _ l => SentFrom items l.writing.store.calls) := by
  unfold Load.run
  refine Triple.bind (Q := fun result l => Sends items result l.writing.store.calls)
    (Load.attempt_spec ?_) fun result => ?_
  · refine Triple.bind ((openTables_taking drop).weaken (fun _ h => h) (fun _ _ h => h) ?_) fun _ =>
      consume_taking gauge items
    exact fun _ l h => h.sentFrom List.nil_prefix
  · exact Triple.bind (close_sends result) fun report =>
      Triple.bind (Load.sayAll_spec fun l h _ => h) fun _ => Triple.pure fun _ h => h

/-- Whatever the store answers, a load sends the first of the rows that its document comes to. If
it goes well it sends all of them. -/
theorem load_sends {input : Input} {options : Options} {items : List Item}
    (h : input.items options.encoding = .ok items) (s : σ) (d : Dataset) (w : ω) :
    let outcome := load input (Logged.mk s []) d.base w options
    SentFrom items outcome.store.calls ∧
      ∀ report, outcome.result = .ok report → SentAll items report.counts outcome.store.calls := by
  obtain ⟨lines, hl⟩ := load_of_items h (Logged.mk s []) d w
  have hstart : Taking [] (Load.initial d input (Logged.mk s []) w options lines) :=
    ⟨[], rfl, fun k => by cases k <;> rfl⟩
  have hend := run_sends options.dropExisting input.gauge items _ hstart
  simp only [hl]
  unfold Ending at hend
  split at hend
  · next report l hr =>
    simp only [Outcome.ofEnd, hr]
    refine ⟨SentAll.sentFrom hend, fun report' h => ?_⟩
    cases h
    exact hend
  · next f l hr =>
    simp only [Outcome.ofEnd, hr]
    exact ⟨hend, fun _ h => by cases h⟩

end

end MapTables
