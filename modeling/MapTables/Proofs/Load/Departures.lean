import MapTables.Proofs.Load.Retries

/-!
# Rows that leave a writer

Rows leave the buffer of their table together: a flush that ends well stores them, or they are
discarded. Whatever the store answers and whatever fails, no row leaves otherwise, none leaves
before an earlier one of its table, and the totals tell what the flushes stored.
-/

namespace MapTables

/-! ## How rows leave -/

/-- The rows of a buffer leave it together. -/
inductive Departure where
  | flushed (rows : List Row) (stored : Stored)
  | discarded (rows : List Row)

namespace Departure

def rows : Departure → List Row
  | .flushed rows _ | .discarded rows => rows

def stored? : Departure → Option Stored
  | .flushed _ stored => some stored
  | .discarded _ => none

end Departure

/-- The batches that were granted with their commit and the next transaction right behind. -/
def endedWell : List Call → List Executed
  | ⟨.insert k _ rows, .ok stored⟩ :: ⟨.commit, .ok _⟩ :: ⟨.beginTransaction, .ok _⟩ :: calls =>
    ⟨k, rows, stored⟩ :: endedWell calls
  | _ :: calls => endedWell calls
  | [] => []

def Totals.ofFlushes (flushes : List Stored) : Totals where
  flushes := flushes.length
  written := flushes.foldr (fun s n => s.written + n) 0
  duplicateTags := flushes.foldr (fun s n => s.duplicateTags + n) 0

theorem Totals.ofFlushes_concat (flushes : List Stored) (s : Stored) :
    ofFlushes (flushes ++ [s]) = (ofFlushes flushes).add s := by
  have sum (f : Stored → Nat) : (flushes ++ [s]).foldr (fun s n => f s + n) 0 =
      flushes.foldr (fun s n => f s + n) 0 + f s := by
    induction flushes with
    | nil => exact Nat.add_comm _ _
    | cons a l ih => rw [List.cons_append, List.foldr_cons, ih, List.foldr_cons, Nat.add_assoc]
  unfold ofFlushes add
  rw [List.length_append, sum, sum]
  rfl

/-- Of the rows that a table was given those that left come first, in the order in which they left,
and the others wait. The totals are those of its flushes. -/
structure Accounts (rows : List Row) (left : List Departure) (b : Buffer) : Prop where
  rows : rows = left.flatMap Departure.rows ++ b.pending.toList
  totals : b.totals = .ofFlushes (left.filterMap Departure.stored?)

namespace Accounts

variable {rows : List Row} {left : List Departure} {b : Buffer}

theorem flushed (h : Accounts rows left b) (stored : Stored) :
    Accounts rows (left ++ [.flushed b.pending.toList stored]) (b.settle stored) := by
  refine ⟨?_, ?_⟩
  · simp [h.rows, Departure.rows, Buffer.settle]
  · rw [List.filterMap_append]
    exact (congrArg (Totals.add · stored) h.totals).trans (Totals.ofFlushes_concat _ stored).symm

theorem discarded (h : Accounts rows left b) :
    Accounts rows (left ++ [.discarded b.pending.toList]) b.discard := by
  refine ⟨?_, ?_⟩
  · simp [h.rows, Departure.rows, Buffer.discard]
  · rw [List.filterMap_append]
    exact h.totals.trans (congrArg Totals.ofFlushes (List.append_nil _).symm)

theorem enqueued {w : Writer} {k : TableKind} (h : Accounts rows left (w.buffers.get k))
    (new : List Placed) :
    Accounts (rows ++ rowsFor k new) left ((new.foldl Writer.enqueue w).buffers.get k) := by
  refine ⟨?_, ?_⟩
  · have hp := Writer.pending_enqueueAll w new k
    unfold Writer.pending at hp
    rw [hp, h.rows, List.append_assoc]
  · rw [Writer.totals_enqueueAll]
    exact h.totals

end Accounts

/-! ## Sweeps over the tables -/

def Writer.flushCalls (w : Writer) (k : TableKind) (stored : Stored) : List Call :=
  [w.handing k (.ok stored), ⟨.commit, .ok ()⟩, ⟨.beginTransaction, .ok ()⟩]

def Writer.hasRows (w : Writer) (k : TableKind) : Bool := !(w.pending k).isEmpty

/-- Of these tables those that were due at first were flushed in their order, and no others. -/
inductive Swept (due : Writer → TableKind → Bool) (w : Writer) :
    List TableKind → List Call → Writer → Prop
  | start : Swept due w [] [] w
  | skip {kinds : List TableKind} {calls : List Call} {w' : Writer}
      (h : Swept due w kinds calls w') {k : TableKind} (idle : due w k = false) :
      Swept due w (kinds ++ [k]) calls w'
  | flush {kinds : List TableKind} {calls : List Call} {w' : Writer}
      (h : Swept due w kinds calls w') {k : TableKind} (isDue : due w k = true) (stored : Stored) :
      Swept due w (kinds ++ [k]) (calls ++ w.flushCalls k stored) (w'.settle k stored)

/-- The calls of a sweep over these tables, the writer after them, and the result. The first table
whose flush fails ends the sweep, and is left as it is with all behind it. -/
inductive SweepEnd (due : Writer → TableKind → Bool) (w : Writer) (kinds : List TableKind) :
    List Call → Writer → Except LoadFault Unit → Prop
  | whole {calls : List Call} {w' : Writer} (swept : Swept due w kinds calls w') :
      SweepEnd due w kinds calls w' (.ok ())
  | stopped {before after : List TableKind} {k : TableKind} {calls broken : List Call}
      {w' : Writer} {f : StoreFault} (order : kinds = before ++ k :: after)
      (swept : Swept due w before calls w') (isDue : due w k = true)
      (flush : FlushEnd w' k broken w') (refused : ∃ c ∈ broken, c.granted = false)
      (left : ∀ j ∈ k :: after, w'.buffers.get j = w.buffers.get j) :
      SweepEnd due w kinds (calls ++ broken) w' (.error (.notWritten (w.dataset.tableName k) f))

/-- Whether a table is due is up to its own buffer. -/
def Local (due : Writer → TableKind → Bool) : Prop :=
  ∀ w w' k, w'.batchSize = w.batchSize → w'.buffers.get k = w.buffers.get k → due w' k = due w k

theorem local_isDue : Local Writer.isDue := by
  intro w w' k hn hb
  unfold Writer.isDue Writer.pending
  rw [hn, hb]

theorem local_hasRows : Local Writer.hasRows := by
  intro w w' k _ hb
  unfold Writer.hasRows Writer.pending
  rw [hb]

theorem endedWell_refused {w w' : Writer} {k : TableKind} {calls : List Call}
    (h : FlushEnd w k calls w') (refused : ∃ c ∈ calls, c.granted = false) :
    endedWell calls = [] := by
  cases h with
  | refused f => rfl
  | uncommitted stored f => rfl
  | unbegun stored f => rfl
  | settled stored =>
    obtain ⟨c, hc, hg⟩ := refused
    simp only [List.mem_cons, List.not_mem_nil, or_false] at hc
    rcases hc with rfl | rfl | rfl <;> cases hg

namespace Swept

variable {due : Writer → TableKind → Bool} {kinds : List TableKind} {w w' : Writer}
  {calls : List Call} {k : TableKind}

theorem setup (h : Swept due w kinds calls w') :
    w'.dataset = w.dataset ∧ w'.batchSize = w.batchSize := by
  induction h with
  | start => exact ⟨rfl, rfl⟩
  | skip _ _ ih => exact ih
  | flush _ _ _ ih => exact ih

theorem endedWell_append (h : Swept due w kinds calls w') (more : List Call) :
    endedWell (calls ++ more) = endedWell calls ++ endedWell more := by
  induction h generalizing more with
  | start => rfl
  | skip _ _ ih => exact ih more
  | flush _ _ _ ih =>
    rw [List.append_assoc, ih, ih, List.append_assoc]
    rfl

theorem endedWell_flush (h : Swept due w kinds calls w') (k : TableKind) (stored : Stored) :
    endedWell (calls ++ w.flushCalls k stored) =
      endedWell calls ++ [FlushEnd.batch w k stored] :=
  h.endedWell_append _

theorem untouched (h : Swept due w kinds calls w') (hk : k ∉ kinds) :
    (endedWell calls).filter (·.kind == k) = [] ∧ w'.buffers.get k = w.buffers.get k := by
  induction h with
  | start => exact ⟨rfl, rfl⟩
  | skip _ _ ih => exact ih fun hm => hk (List.mem_append_left _ hm)
  | @flush _ _ _ h j _ stored ih =>
    obtain ⟨hnone, hsame⟩ := ih fun hm => hk (List.mem_append_left _ hm)
    have hj : j ≠ k := fun he => hk (by simp [he])
    rw [h.endedWell_flush, List.filter_append, hnone, Writer.settle_of_ne _ _ (Ne.symm hj), hsame]
    simp [FlushEnd.batch, hj]

theorem departs (h : Swept due w kinds calls w') (nodup : kinds.Nodup) (k : TableKind) :
    ((endedWell calls).filter (·.kind == k) = [] ∧ w'.buffers.get k = w.buffers.get k) ∨
      ∃ stored, (endedWell calls).filter (·.kind == k) = [FlushEnd.batch w k stored] ∧
        w'.buffers.get k = (w.buffers.get k).settle stored := by
  induction h with
  | start => exact Or.inl ⟨rfl, rfl⟩
  | skip _ _ ih => exact ih (List.nodup_append.mp nodup).1
  | @flush _ _ _ h j _ stored ih =>
    obtain ⟨hkinds, -, hnew⟩ := List.nodup_append.mp nodup
    rw [h.endedWell_flush, List.filter_append]
    by_cases hj : j = k
    · subst hj
      obtain ⟨hnone, hsame⟩ :=
        h.untouched fun hm => hnew j hm j (List.mem_singleton_self j) rfl
      rw [Writer.settle_self, hnone, hsame]
      exact Or.inr ⟨stored, by simp [FlushEnd.batch], rfl⟩
    · rw [Writer.settle_of_ne _ _ (Ne.symm hj)]
      simpa [FlushEnd.batch, hj] using ih hkinds

end Swept

section

variable {σ : Type} [Store σ] {due : Writer → TableKind → Bool}

def Sweeps (due : Writer → TableKind → Bool) (kinds : List TableKind)
    (x : WritingM (Logged σ) Unit) : Prop :=
  ∀ s, ∃ new, (x s).2.store.calls = s.store.calls ++ new ∧
    SweepEnd due s.writer kinds new (x s).2.writer (x s).1

def FlushesIf (due : Writer → TableKind → Bool) (k : TableKind)
    (x : WritingM (Logged σ) Unit) : Prop :=
  ∀ s, x s = if due s.writer k then Writing.flush k s else (.ok (), s)

theorem FlushesIf.sweeps_on (hl : Local due) {k : TableKind} {x : WritingM (Logged σ) Unit}
    (hx : FlushesIf due k x) {front after : List TableKind} (nodup : (front ++ k :: after).Nodup)
    {s t : Writing (Logged σ)} {calls : List Call} (hc : t.store.calls = s.store.calls ++ calls)
    (h : Swept due s.writer front calls t.writer) :
    Ending (fun _ u => ∃ new, u.store.calls = s.store.calls ++ new ∧
        Swept due s.writer (front ++ [k]) new u.writer)
      (fun e u => ∃ new, u.store.calls = s.store.calls ++ new ∧
        SweepEnd due s.writer (front ++ k :: after) new u.writer (.error e)) (x t) := by
  obtain ⟨-, -, hnew⟩ := List.nodup_append.mp nodup
  have hk : k ∉ front := fun hm => hnew k hm k List.mem_cons_self rfl
  -- The table is still as it was at first, so it is due now if it was then.
  have hsame := (h.untouched hk).2
  have hdue : due t.writer k = due s.writer k := hl _ _ _ h.setup.2 hsame
  have handing (a : Except StoreFault Stored) : t.writer.handing k a = s.writer.handing k a := by
    unfold Writer.handing Writer.pending
    rw [h.setup.1, hsame]
  rw [hx, hdue]
  split
  · next hd =>
    refine (flush_ends k t t rfl).imp ?_ ?_
    · rintro _ u ⟨stored, hw, hcu⟩
      rw [handing, hc, List.append_assoc] at hcu
      exact ⟨_, hcu, hw ▸ h.flush hd stored⟩
    · rintro _ u ⟨f, broken, rfl, hw, hcu, hflush, hrefused⟩
      rw [hc, List.append_assoc] at hcu
      refine ⟨_, hcu, ?_⟩
      rw [hw, h.setup.1]
      refine .stopped rfl h hd hflush hrefused fun j hj => (h.untouched fun hm => ?_).2
      exact hnew j hm j hj rfl
  · next hd => exact ⟨calls, hc, h.skip (by simpa using hd)⟩

theorem forM_sweeps (hl : Local due) {x : TableKind → WritingM (Logged σ) Unit}
    (hx : ∀ k, FlushesIf due k (x k)) {kinds : List TableKind} (nodup : kinds.Nodup) :
    Sweeps due kinds (kinds.forM x) := by
  intro s
  have swept : Triple (· = s) (kinds.forM x)
      (fun _ t => ∃ new, t.store.calls = s.store.calls ++ new ∧
        Swept due s.writer kinds new t.writer)
      (fun e t => ∃ new, t.store.calls = s.store.calls ++ new ∧
        SweepEnd due s.writer kinds new t.writer (.error e)) := by
    refine (Triple.forM (I := fun front t => ∃ new, t.store.calls = s.store.calls ++ new ∧
      Swept due s.writer front new t.writer) kinds ?_).weaken ?_ (fun _ _ h => h) fun _ _ h => h
    · rintro front k after rfl t ⟨calls, hc, h⟩
      exact (hx k).sweeps_on hl nodup hc h
    · rintro _ rfl
      exact ⟨[], (List.append_nil _).symm, .start⟩
  exact ((swept s rfl).imp (fun _ _ ⟨new, hc, h⟩ => ⟨new, hc, .whole h⟩) fun _ _ h => h).result
    (P := fun (r : Except LoadFault PUnit) (t : Writing (Logged σ)) =>
      ∃ new, t.store.calls = s.store.calls ++ new ∧ SweepEnd due s.writer kinds new t.writer r)

theorem flushIfDue_flushes (k : TableKind) :
    FlushesIf Writer.isDue k (do let _ ← Writing.flushIfDue k : WritingM (Logged σ) Unit) := by
  intro s
  have h : (do let _ ← Writing.flushIfDue k : WritingM (Logged σ) Unit) =
      get >>= fun s => if s.writer.isDue k then Writing.flush k else Pure.pure () := by
    unfold Writing.flushIfDue
    rw [bind_assoc]
    refine congrArg (get >>= ·) (funext fun s => ?_)
    split <;> simp only [bind_assoc, pure_bind, bind_pure_unit]
  rw [h]
  change (if s.writer.isDue k then Writing.flush k else Pure.pure () :
    WritingM (Logged σ) Unit) s = _
  split <;> rfl

theorem flushIfDue_state (k : TableKind) (s : Writing (Logged σ)) :
    (Writing.flushIfDue k s).2 = if s.writer.isDue k then (Writing.flush k s).2 else s := by
  have h := congrArg Prod.snd (flushIfDue_flushes k s)
  rw [bind_run] at h
  rw [← apply_ite Prod.snd (s.writer.isDue k = true) (Writing.flush k s) (.ok (), s), ← h]
  rcases (Writing.flushIfDue k s : Except LoadFault Bool × Writing (Logged σ)) with ⟨_ | _, _⟩
  all_goals rfl

theorem flush_others {j k : TableKind} (hjk : j ≠ k) (s : Writing (Logged σ)) :
    (Writing.flush k s).2.writer.buffers.get j = s.writer.buffers.get j := by
  have ends : Ending (fun _ u => u.writer.buffers.get j = s.writer.buffers.get j)
      (fun _ u => u.writer.buffers.get j = s.writer.buffers.get j) (Writing.flush k s) := by
    refine (flush_ends k s s rfl).imp ?_ ?_
    · rintro _ u ⟨stored, hw, -⟩
      rw [hw, Writer.settle_of_ne _ _ hjk]
    · rintro _ u ⟨_, _, -, hw, -⟩
      rw [hw]
  exact ends.result (P := fun _ (u : Writing (Logged σ)) =>
    u.writer.buffers.get j = s.writer.buffers.get j)

theorem poll_sweeps : Sweeps Writer.isDue TableKind.all (Writing.poll : WritingM (Logged σ) Unit) :=
  forM_sweeps local_isDue flushIfDue_flushes TableKind.nodup_all

theorem flushAll_sweeps :
    Sweeps Writer.hasRows TableKind.all (Writing.flushAll : WritingM (Logged σ) Unit) := by
  refine forM_sweeps local_hasRows (fun k s => ?_) TableKind.nodup_all
  change (if (s.writer.pending k).isEmpty then Pure.pure () else Writing.flush k :
    WritingM (Logged σ) Unit) s = _
  unfold Writer.hasRows
  cases (s.writer.pending k).isEmpty <;> rfl

end

/-! ## Operations -/

inductive Writing.Operation where
  | act (action : Action)
  | discard

namespace Writing

variable {σ : Type} [Store σ]

namespace Operation

def run : Operation → WritingM σ Unit
  | .act a => a.run
  | .discard => do
    let _ ← Writing.discard

def rows : Operation → List Placed
  | .act a => a.rows
  | .discard => []

end Operation

def flushesOf (k : TableKind) (s t : Writing (Logged σ)) : List Departure :=
  ((endedWell (t.store.calls.drop s.store.calls.length)).filter (·.kind == k)).map fun b =>
    .flushed b.rows b.stored

def Operation.departures (k : TableKind) (s : Writing (Logged σ)) : Operation → List Departure
  | .act a => flushesOf k s (a.run s).2
  | .discard => [.discarded (s.writer.pending k).toList]

/-- A writer goes on with the next operation, also after a fault. -/
def through (s : Writing (Logged σ)) : List Operation → Writing (Logged σ)
  | [] => s
  | o :: os => through (o.run s).2 os

def departures (k : TableKind) (s : Writing (Logged σ)) : List Operation → List Departure
  | [] => []
  | o :: os => o.departures k s ++ departures k (o.run s).2 os

end Writing

theorem SweepEnd.departs {due : Writer → TableKind → Bool} {kinds : List TableKind}
    {w w' : Writer} {calls : List Call} {result : Except LoadFault Unit}
    (h : SweepEnd due w kinds calls w' result) (nodup : kinds.Nodup) (k : TableKind) :
    ((endedWell calls).filter (·.kind == k) = [] ∧ w'.buffers.get k = w.buffers.get k) ∨
      ∃ stored, (endedWell calls).filter (·.kind == k) = [FlushEnd.batch w k stored] ∧
        w'.buffers.get k = (w.buffers.get k).settle stored := by
  cases h with
  | whole swept => exact swept.departs nodup k
  | stopped order swept _ flush refused _ =>
    rw [swept.endedWell_append, endedWell_refused flush refused, List.append_nil]
    rw [order] at nodup
    exact swept.departs (List.nodup_append.mp nodup).1 k

section

variable {σ : Type} [Store σ] {due : Writer → TableKind → Bool} {kinds : List TableKind}
  {x : WritingM (Logged σ) Unit} {rows : List Row} {left : List Departure} {k : TableKind}

omit [Store σ] in
theorem Sweeps.accounts (hx : Sweeps due kinds x) (nodup : kinds.Nodup) (s : Writing (Logged σ))
    (h : Accounts rows left (s.writer.buffers.get k)) :
    Accounts rows (left ++ Writing.flushesOf k s (x s).2) ((x s).2.writer.buffers.get k) := by
  obtain ⟨new, hc, hend⟩ := hx s
  unfold Writing.flushesOf
  rw [hc, List.drop_left]
  rcases hend.departs nodup k with ⟨hnone, hsame⟩ | ⟨stored, hone, hsettled⟩
  · rw [hnone, hsame]
    simpa using h
  · rw [hone, hsettled]
    exact h.flushed stored

theorem Writer.get_discard (w : Writer) (k : TableKind) :
    w.discard.buffers.get k = (w.buffers.get k).discard := by cases k <;> rfl

theorem Writer.waiting_eq (w : Writer) :
    w.waiting = (TableKind.all.flatMap fun k => (w.pending k).toList).length := by
  unfold waiting
  induction TableKind.all with
  | nil => rfl
  | cons k l ih => simp [ih]

theorem Writing.Operation.accounts (o : Operation) (s : Writing (Logged σ))
    (h : Accounts rows left (s.writer.buffers.get k)) :
    Accounts (rows ++ rowsFor k o.rows) (left ++ o.departures k s)
      ((o.run s).2.writer.buffers.get k) := by
  have swept {x : WritingM (Logged σ) Unit} {due : Writer → TableKind → Bool}
      {kinds : List TableKind} (hx : Sweeps due kinds x) (nodup : kinds.Nodup) :
      Accounts (rows ++ rowsFor k []) (left ++ flushesOf k s (x s).2)
        ((x s).2.writer.buffers.get k) := by
    rw [rowsFor_nil, List.append_nil]
    exact hx.accounts nodup s h
  cases o with
  | discard =>
    rw [show (Operation.discard.run s).2.writer = s.writer.discard from rfl, Writer.get_discard]
    simpa [Operation.rows, Operation.departures, Writer.pending] using h.discarded
  | act a =>
    cases a with
    | enqueue row =>
      have hcalls : flushesOf k s ((Action.enqueue row).run s).2 = [] := by
        unfold flushesOf
        rw [show ((Action.enqueue row).run s).2.store.calls = s.store.calls from rfl,
          List.drop_length]
        rfl
      simp only [Operation.departures, hcalls, List.append_nil]
      exact h.enqueued [row]
    | flushIfDue j =>
      have nodup : [j].Nodup := List.pairwise_singleton _ j
      have single : Sweeps Writer.isDue [j]
          (do let _ ← Writing.flushIfDue j : WritingM (Logged σ) Unit) := by
        simpa using forM_sweeps local_isDue flushIfDue_flushes nodup
      exact swept single nodup
    | poll => exact swept poll_sweeps TableKind.nodup_all
    | flushAll => exact swept flushAll_sweeps TableKind.nodup_all

theorem Writing.through_accounts (operations : List Operation) (s : Writing (Logged σ))
    (h : Accounts rows left (s.writer.buffers.get k)) :
    Accounts (rows ++ rowsFor k (operations.flatMap Operation.rows))
      (left ++ s.departures k operations) ((s.through operations).writer.buffers.get k) := by
  induction operations generalizing s rows left with
  | nil => simpa [departures, through] using h
  | cons o os ih =>
    have := ih (o.run s).2 (o.accounts s h)
    simpa [departures, through, rowsFor_append] using this

/-- Whatever is asked of a writer and whatever its store answers: the rows that a table was given
are those that left, flush by flush and discard by discard, and behind them those that wait, and its
totals are those of its flushes. A flush changes no other table. A poll and a flush of all tables
flush the tables that are due in their order up to the first whose flush fails, and leave that one
and those behind it as they are. What is discarded is all that waits. -/
theorem writer_accounts_for_rows (s : σ) (d : Dataset) (n : Nat)
    (operations : List Writing.Operation) :
    let start : Writing (Logged σ) := ⟨⟨d, n, .const {}⟩, Logged.mk s [], #[]⟩
    let t := start.through operations
    (∀ k, Accounts (rowsFor k (operations.flatMap Writing.Operation.rows))
      (start.departures k operations) (t.writer.buffers.get k)) ∧
    (∀ j k, j ≠ k → (Writing.flush k t).2.writer.buffers.get j = t.writer.buffers.get j ∧
      (Writing.flushIfDue k t).2.writer.buffers.get j = t.writer.buffers.get j) ∧
    (∃ new, (Writing.poll t).2.store.calls = t.store.calls ++ new ∧
      SweepEnd Writer.isDue t.writer TableKind.all new (Writing.poll t).2.writer
        (Writing.poll t).1) ∧
    (∃ new, (Writing.flushAll t).2.store.calls = t.store.calls ++ new ∧
      SweepEnd Writer.hasRows t.writer TableKind.all new (Writing.flushAll t).2.writer
        (Writing.flushAll t).1) ∧
    ∃ u, Writing.discard t =
        (.ok (TableKind.all.flatMap fun k => (t.writer.pending k).toList).length, u) ∧
      u.store = t.store ∧ ∀ k, u.writer.pending k = #[] ∧
        (u.writer.buffers.get k).totals = (t.writer.buffers.get k).totals := by
  intro start t
  refine ⟨fun k => ?_, fun j k hjk => ?_, poll_sweeps t, flushAll_sweeps t, ?_⟩
  · have fresh : Accounts [] [] (start.writer.buffers.get k) := by
      rw [show start.writer.buffers.get k = {} from PerTable.get_const _ k]
      exact ⟨rfl, rfl⟩
    exact start.through_accounts operations fresh
  · have others := flush_others hjk t
    refine ⟨others, ?_⟩
    rw [flushIfDue_state]
    split
    · exact others
    · rfl
  · refine ⟨{ t with writer := t.writer.discard }, ?_, rfl, fun k => ?_⟩
    · rw [← Writer.waiting_eq]
      rfl
    · rw [Writer.pending, Writer.get_discard]
      exact ⟨rfl, rfl⟩

end

end MapTables
