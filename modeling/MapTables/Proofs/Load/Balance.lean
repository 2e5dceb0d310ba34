import MapTables.Proofs.Store.Driven

/-!
# The balance of a writer and its store

Of the rows that were enqueued for a table the first ones are in the store and the others
wait. A flush moves all of them into the store, or stops and leaves each table with whole
flushes.
-/

namespace MapTables

/-! ## What a writer holds -/

namespace Writer

theorem enqueue_eq (w : Writer) (r : Placed) :
    w.enqueue r = { w with buffers := w.buffers.modify r.1 (·.push r.2) } := rfl

theorem pending_enqueue (w : Writer) (r : Placed) (k : TableKind) :
    ((w.enqueue r).pending k).toList = (w.pending k).toList ++ rowsFor k [r] := by
  rw [enqueue_eq, rowsFor_cons]
  unfold pending
  by_cases h : r.1 = k
  · subst h; simp [Buffer.push]
  · simp [PerTable.get_modify_of_ne _ _ (Ne.symm h), h]

theorem totals_enqueue (w : Writer) (r : Placed) (k : TableKind) :
    ((w.enqueue r).buffers.get k).totals = (w.buffers.get k).totals := by
  rw [enqueue_eq, PerTable.get_modify]
  split <;> rfl

theorem pending_enqueueAll (w : Writer) (rows : List Placed) (k : TableKind) :
    ((rows.foldl enqueue w).pending k).toList = (w.pending k).toList ++ rowsFor k rows := by
  induction rows generalizing w with
  | nil => simp
  | cons r rows ih =>
    rw [List.foldl_cons, ih, pending_enqueue, List.append_assoc, ← rowsFor_append]
    rfl

theorem totals_enqueueAll (w : Writer) (rows : List Placed) (k : TableKind) :
    ((rows.foldl enqueue w).buffers.get k).totals = (w.buffers.get k).totals := by
  induction rows generalizing w with
  | nil => rfl
  | cons r rows ih => rw [List.foldl_cons, ih, totals_enqueue]

theorem dataset_enqueueAll (w : Writer) (rows : List Placed) :
    (rows.foldl enqueue w).dataset = w.dataset := by
  induction rows generalizing w with
  | nil => rfl
  | cons r rows ih => exact ih _

theorem settle_self (w : Writer) (k : TableKind) (s : Stored) :
    (w.settle k s).buffers.get k = (w.buffers.get k).settle s := PerTable.get_modify_self ..

theorem settle_of_ne (w : Writer) {j k : TableKind} (s : Stored) (h : j ≠ k) :
    (w.settle k s).buffers.get j = w.buffers.get j := PerTable.get_modify_of_ne _ _ h

end Writer

/-! ## The balance -/

/-- A table that was given the rows of `done`; of `rows` the others wait. -/
structure Shared (k : TableKind) (table : String) (rows done : List Row) (b : Buffer)
    (m : Memory) : Prop where
  split : rows = done ++ b.pending.toList
  stored : (m.rows table).toList = k.keep done
  written : b.totals.written = (k.keep done).length
  given : b.totals.written + b.totals.duplicateTags = done.length

/-- A memory with the tables of a dataset, between two flushes. It refuses nothing unless
requests may be refused. -/
structure Settled (refusing : Prop) (d : Dataset) (m : Memory) : Prop where
  present : ∀ k, m.tables.contains (d.tableName k) = true
  unstaged : m.staged = #[]
  unlocked : refusing ∨ m.lockedTable = none
  releasable : refusing ∨ m.refusesRelease = false

/-- The tables of a memory hold what they keep of the rows that they were given. -/
def Holds (d : Dataset) (done : TableKind → List Row) (m : Memory) : Prop :=
  ∀ k, (m.rows (d.tableName k)).toList = k.keep (done k)

/-- Some tables were given all their rows since, and the others none. -/
def Between (rows done done' : TableKind → List Row) : Prop :=
  ∀ k, done' k = done k ∨ done' k = rows k

structure Balanced {σ : Type} (view : σ → Memory) (refusing : Prop) (d : Dataset)
    (rows done : TableKind → List Row) (s : Writing σ) : Prop where
  dataset : s.writer.dataset = d
  settled : Settled refusing d (view s.store)
  shared : ∀ k, Shared k (d.tableName k) (rows k) (done k) (s.writer.buffers.get k) (view s.store)

theorem Between.refl (rows done : TableKind → List Row) : Between rows done done :=
  fun _ => Or.inl rfl

theorem Between.trans {rows a b c : TableKind → List Row} (hab : Between rows a b)
    (hbc : Between rows b c) : Between rows a c := by
  intro k
  rcases hbc k with h | h
  · rw [h]; exact hab k
  · exact Or.inr h

def flushed (rows done : TableKind → List Row) (k : TableKind) : TableKind → List Row :=
  fun j => if j = k then rows j else done j

theorem between_flushed (rows done : TableKind → List Row) (k : TableKind) :
    Between rows done (flushed rows done k) := by
  intro j
  unfold flushed
  split
  · exact Or.inr rfl
  · exact Or.inl rfl

namespace Balanced

variable {σ : Type} {view : σ → Memory} {refusing : Prop} {d : Dataset}
  {rows done : TableKind → List Row} {s : Writing σ}

theorem holds (h : Balanced view refusing d rows done s) : Holds d done (view s.store) :=
  fun k => (h.shared k).stored

theorem of_eq {t : Writing σ} (h : Balanced view refusing d rows done s)
    (hw : t.writer = s.writer) (hs : view t.store = view s.store) :
    Balanced view refusing d rows done t := by
  obtain ⟨hd, hset, hsh⟩ := h
  rw [← hs] at hset hsh
  rw [← hw] at hd hsh
  exact ⟨hd, hset, hsh⟩

theorem enqueueAll (h : Balanced view refusing d rows done s) (new : List Placed) :
    Balanced view refusing d (fun k => rows k ++ rowsFor k new) done
      { s with writer := new.foldl Writer.enqueue s.writer } := by
  refine ⟨by rw [Writer.dataset_enqueueAll]; exact h.dataset, h.settled, fun k => ?_⟩
  obtain ⟨hsplit, hstored, hwritten, hgiven⟩ := h.shared k
  have hp := Writer.pending_enqueueAll s.writer new k
  unfold Writer.pending at hp
  refine ⟨?_, hstored, ?_, ?_⟩
  · rw [hp, hsplit, List.append_assoc]
  · rw [Writer.totals_enqueueAll]; exact hwritten
  · rw [Writer.totals_enqueueAll]; exact hgiven

end Balanced
end MapTables
