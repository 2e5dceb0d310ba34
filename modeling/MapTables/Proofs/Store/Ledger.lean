import MapTables.Proofs.Store.Driven
import MapTables.Proofs.Store.Replay

/-!
# What calls make final

A batch that is granted is staged, and the next commit that is granted makes all that is staged
final. In a memory each table gains the rows of its final batches.
-/

namespace MapTables

/-- A batch that was granted, and what the store did with it. -/
structure Executed where
  kind : TableKind
  rows : List Row
  stored : Stored

def writtenTo (k : TableKind) (batches : List Executed) : Nat :=
  (batches.filter (·.kind == k)).foldr (fun b n => b.stored.written + n) 0

structure Ledger where
  committed : List Executed := []
  staged : List Executed := []

def Ledger.add (l : Ledger) : Call → Ledger
  | ⟨.insert k _ rows, .ok stored⟩ => { l with staged := l.staged ++ [⟨k, rows, stored⟩] }
  | ⟨.commit, .ok _⟩ => ⟨l.committed ++ l.staged, []⟩
  | ⟨.rollback, .ok _⟩ => { l with staged := [] }
  | _ => l

def ledger (calls : List Call) : Ledger := calls.foldl Ledger.add {}

/-- The batches of a table that calls made final. -/
def committedTo (k : TableKind) (calls : List Call) : List Executed :=
  (ledger calls).committed.filter (·.kind == k)

theorem writtenTo_append (k : TableKind) (l l' : List Executed) :
    writtenTo k (l ++ l') = writtenTo k l + writtenTo k l' := by
  unfold writtenTo
  rw [List.filter_append, List.foldr_append]
  induction l.filter (·.kind == k) with
  | nil => exact (Nat.zero_add _).symm
  | cons b l ih => rw [List.foldr_cons, ih, List.foldr_cons, Nat.add_assoc]

theorem writtenTo_singleton (k : TableKind) (b : Executed) :
    writtenTo k [b] = if b.kind = k then b.stored.written else 0 := by
  by_cases h : b.kind = k <;> simp [writtenTo, h]

theorem ledger_append (calls new : List Call) :
    ledger (calls ++ new) = new.foldl Ledger.add (ledger calls) :=
  List.foldl_append

/-! ## Memories -/

/-- What the writer asks for between two features: batches for their own tables, and ends and
beginnings of transactions. -/
inductive Request.IsOfFlush (d : Dataset) : Request → Prop
  | insert (k : TableKind) (rows : List Row) : IsOfFlush d (.insert k (d.tableName k) rows)
  | commit : IsOfFlush d .commit
  | beginTransaction : IsOfFlush d .beginTransaction

/-- The tables of a memory have so many rows more than before as the final batches stored, and
what the others stored is staged. -/
structure Ledger.Tells (d : Dataset) (before : Memory) (l : Ledger) (m : Memory) : Prop where
  gained : ∀ k, (m.rows (d.tableName k)).size =
    (before.rows (d.tableName k)).size + writtenTo k l.committed
  staged : ∀ k, (m.staged.toList.filter fun s => s.1 = d.tableName k).length = writtenTo k l.staged

namespace Memory

variable {k : TableKind} {table : String} {m next : Memory}

theorem stage_staged (k : TableKind) (table : String) (s : Memory × Stored) (r : Row) :
    (stage k table s r).1.tables = s.1.tables ∧
    ∃ rows : List Row, (stage k table s r).1.staged.toList =
      s.1.staged.toList ++ rows.map (table, ·) ∧
      (stage k table s r).2.written = s.2.written + rows.length := by
  unfold stage
  split
  · exact ⟨rfl, [], by simp⟩
  · exact ⟨rfl, [r], by simp⟩

theorem stageAll_staged (k : TableKind) (table : String) (s : Memory × Stored) (rows : List Row) :
    (rows.foldl (stage k table) s).1.tables = s.1.tables ∧
    ∃ kept : List Row, (rows.foldl (stage k table) s).1.staged.toList =
      s.1.staged.toList ++ kept.map (table, ·) ∧
      (rows.foldl (stage k table) s).2.written = s.2.written + kept.length := by
  induction rows generalizing s with
  | nil => exact ⟨rfl, [], by simp⟩
  | cons r rows ih =>
    obtain ⟨htables, kept, hstaged, hwritten⟩ := stage_staged k table s r
    obtain ⟨htables', more, hstaged', hwritten'⟩ := ih (stage k table s r)
    refine ⟨htables'.trans htables, kept ++ more, ?_, ?_⟩
    · rw [List.foldl_cons, hstaged', hstaged, List.map_append, List.append_assoc]
    · rw [List.foldl_cons, hwritten', hwritten, List.length_append, Nat.add_assoc]

theorem insert_staged {rows : List Row} {stored : Stored}
    (h : m.insert k table rows = (.ok stored, next)) : next.tables = m.tables ∧
      ∃ kept : List Row, next.staged.toList = m.staged.toList ++ kept.map (table, ·) ∧
        stored.written = kept.length := by
  unfold insert at h
  split at h
  · cases h
  · split at h
    · cases h
    · simp only [Prod.mk.injEq, Except.ok.injEq] at h
      obtain ⟨rfl, rfl⟩ := h
      obtain ⟨htables, kept, hstaged, hwritten⟩ := stageAll_staged k table
        ({ m with
          batches := m.batches + 1
          batchSizes := m.batchSizes.alter table (·.push rows.length) #[rows.length] }, {}) rows
      exact ⟨htables, kept, hstaged, by rw [hwritten]; exact Nat.zero_add _⟩

end Memory

namespace Ledger.Tells

variable {d : Dataset} {before m next : Memory} {l : Ledger}

theorem start (h : m.staged = #[]) : Ledger.Tells d m {} m :=
  ⟨fun _ => rfl, fun k => by rw [h]; rfl⟩

theorem insert {k : TableKind} {rows : List Row} {stored : Stored} (h : l.Tells d before m)
    (hi : m.insert k (d.tableName k) rows = (.ok stored, next)) :
    Ledger.Tells d before { l with staged := l.staged ++ [⟨k, rows, stored⟩] } next := by
  obtain ⟨htables, kept, hstaged, hwritten⟩ := Memory.insert_staged hi
  refine ⟨fun j => ?_, fun j => ?_⟩
  · rw [Memory.rows, htables]
    exact h.gained j
  · rw [hstaged, List.filter_append, List.length_append, h.staged j, writtenTo_append,
      writtenTo_singleton, hwritten]
    by_cases hj : k = j
    · subst hj
      simp [List.filter_map, Function.comp_def]
    · simp [List.filter_map, Function.comp_def, hj, d.tableName_ne hj]

theorem commit (h : l.Tells d before m) :
    Ledger.Tells d before ⟨l.committed ++ l.staged, []⟩ m.commit := by
  refine ⟨fun j => ?_, fun j => rfl⟩
  have hrows := congrArg List.length (m.rows_commit (d.tableName j))
  rw [List.length_append, List.length_map, h.staged j] at hrows
  simp only [Array.length_toList] at hrows
  rw [hrows, h.gained j, writtenTo_append, Nat.add_assoc]

variable {σ : Type} [Store σ] {view : σ → Memory} {refusing : Prop} {s t : σ}

theorem call (dr : Drives view refusing) {r : Request} {a : Except StoreFault r.Answer}
    (h : l.Tells d before (view s)) (hr : r.IsOfFlush d) (ha : Store.ask r s = (a, t)) :
    (l.add ⟨r, a⟩).Tells d before (view t) := by
  have hview := dr.moves ha
  have refused (f : StoreFault) (hf : a = .error f) : view t = view s := by
    rcases hview with ⟨hm, hv⟩ | ⟨-, hv⟩
    · rw [hv, Memory.ask_error (hm.symm.trans hf)]
    · exact hv
  cases a with
  | error f =>
    rw [refused f rfl]
    cases hr <;> exact h
  | ok a =>
    obtain ⟨hm, hv⟩ := hview.resolve_right fun ⟨⟨f, hf⟩, _⟩ => nomatch hf
    cases hr with
    | insert k rows => exact h.insert (Prod.ext hm.symm hv.symm)
    | commit =>
      rw [hv]
      exact h.commit
    | beginTransaction =>
      rw [hv]
      exact ⟨h.gained, h.staged⟩

theorem calls (dr : Drives view refusing) {calls : List Call} (h : l.Tells d before (view s))
    (hr : ∀ c ∈ calls, c.request.IsOfFlush d) (ha : Answers s calls t) :
    (calls.foldl Ledger.add l).Tells d before (view t) := by
  induction ha generalizing l with
  | nil => exact h
  | cons answer _ ih =>
    exact ih (h.call dr (hr _ List.mem_cons_self) answer) fun c hc =>
      hr c (List.mem_cons_of_mem _ hc)

end Ledger.Tells
end MapTables
