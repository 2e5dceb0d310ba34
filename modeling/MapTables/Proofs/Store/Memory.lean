import MapTables.Proofs.Table.Key
import MapTables.Store.Memory

/-!
# What a store in memory does

A request that is refused changes nothing. A batch stages the rows that the table keeps,
and a commit moves what is staged behind the rows of its table.
-/

namespace MapTables.Memory

theorem ask_error {r : Request} {m : Memory} {f : StoreFault} (h : (ask r m).1 = .error f) :
    (ask r m).2 = m := by
  cases r with
  | createTable k t =>
    simp only [ask, createTable] at h ⊢
    split
    · rfl
    · next ht => rw [if_neg ht] at h; cases h
  | insert k t rows =>
    simp only [ask, insert] at h ⊢
    split
    · rfl
    · next hl =>
      rw [if_neg hl] at h
      split
      · rfl
      · next ht => rw [if_neg ht] at h; cases h
  | release =>
    simp only [ask, release] at h ⊢
    split
    · rfl
    · next hr => rw [if_neg hr] at h; cases h
  | _ => cases h

/-! ## Batches -/

/-- A batch on its way into a table. So far the table was given the rows of `done`. -/
structure Staging (k : TableKind) (table : String) (before : Memory) (done : List Row)
    (s : Memory × Stored) : Prop where
  tables : s.1.tables = before.tables
  lockedTable : s.1.lockedTable = before.lockedTable
  refusesRelease : s.1.refusesRelease = before.refusesRelease
  ours : ∀ x ∈ s.1.staged.toList, x.1 = table
  kept : (s.1.rows table).toList ++ s.1.staged.toList.map Prod.snd = k.keep done
  counted : s.1.staged.size = s.2.written

variable {k : TableKind} {table : String} {before : Memory} {done : List Row} {s : Memory × Stored}

theorem sameTag_tag (t : TagRow) : Row.sameTag (.tag t) = givesKey t := by
  funext r
  cases r with
  | tag u => simp [Row.sameTag, givesKey, Bool.beq_comm (a := t.owner), Bool.beq_comm (a := t.key)]
  | _ => rfl

theorem any_staged {l : List (String × Row)} (t : TagRow) (h : ∀ x ∈ l, x.1 = table) :
    (l.any fun x => x.1 == table && givesKey t x.2) = (l.map Prod.snd).any (givesKey t) := by
  induction l with
  | nil => rfl
  | cons x l ih =>
    have hx : x.1 = table := h x List.mem_cons_self
    have hl := ih fun y hy => h y (List.mem_cons_of_mem x hy)
    simp only [List.any_cons, List.map_cons, hl, hx, BEq.rfl, Bool.true_and]

theorem Staging.leavesOut_eq (h : Staging k table before done s) (r : Row) :
    s.1.leavesOut k table r = (k.holdsTags && (k.keep done).any r.sameTag) := by
  cases r with
  | tag t =>
    rw [sameTag_tag, ← h.kept, List.any_append, ← any_staged t h.ours, leavesOut, hasTag]
    simp
  | _ => simp [leavesOut, Row.sameTag]

theorem Staging.stage (h : Staging k table before done s) (r : Row) :
    Staging k table before (done ++ [r]) (stage k table s r) := by
  have hl := h.leavesOut_eq r
  unfold Memory.stage
  split
  · next hs =>
    rw [hs] at hl
    refine ⟨h.tables, h.lockedTable, h.refusesRelease, h.ours, ?_, h.counted⟩
    rw [TableKind.keep_concat, ← hl, if_pos rfl]
    exact h.kept
  · next hs =>
    rw [Bool.not_eq_true] at hs
    rw [hs] at hl
    refine ⟨h.tables, h.lockedTable, h.refusesRelease, ?_, ?_, by simp [h.counted]⟩
    · intro x hx
      rw [Array.toList_push, List.mem_append, List.mem_singleton] at hx
      rcases hx with hx | rfl
      · exact h.ours x hx
      · rfl
    · rw [TableKind.keep_concat, ← hl, if_neg Bool.false_ne_true, ← h.kept]
      simp [rows]

theorem count_stage (r : Row) :
    (stage k table s r).2.written + (stage k table s r).2.duplicateTags =
      s.2.written + s.2.duplicateTags + 1 := by
  unfold stage
  split <;> simp only <;> omega

theorem Staging.stageAll (h : Staging k table before done s) (rows : List Row) :
    Staging k table before (done ++ rows) (rows.foldl (Memory.stage k table) s) := by
  induction rows generalizing done s with
  | nil => simpa using h
  | cons r rows ih => simpa using ih (h.stage r)

theorem count_stageAll (rows : List Row) :
    (rows.foldl (stage k table) s).2.written + (rows.foldl (stage k table) s).2.duplicateTags =
      s.2.written + s.2.duplicateTags + rows.length := by
  induction rows generalizing s with
  | nil => rfl
  | cons r rows ih =>
    rw [List.foldl_cons, ih, count_stage, List.length_cons]
    omega

theorem insert_ok {m next : Memory} {rows : List Row} {stored : Stored}
    (h : m.insert k table rows = (.ok stored, next)) (unstaged : m.staged = #[])
    (kept : (m.rows table).toList = k.keep done) :
    Staging k table m (done ++ rows) (next, stored) ∧
      stored.written + stored.duplicateTags = rows.length := by
  unfold insert at h
  split at h
  · cases h
  · split at h
    · cases h
    · simp only [Prod.mk.injEq, Except.ok.injEq] at h
      obtain ⟨rfl, rfl⟩ := h
      refine ⟨Staging.stageAll ?_ rows, ?_⟩
      · exact ⟨rfl, rfl, rfl, by simp [unstaged], by simpa [unstaged, Memory.rows] using kept,
          by simp [unstaged]⟩
      · rw [count_stageAll]
        simp

theorem insert_new {m : Memory} {rows : List Row} (unlocked : m.lockedTable = none)
    (present : m.tables.contains table = true) (unstaged : m.staged = #[])
    (kept : (m.rows table).toList = k.keep done) (accepts : k.Accepts (done ++ rows)) :
    ∃ next, m.insert k table rows = (.ok { written := rows.length }, next) ∧
      Staging k table m (done ++ rows) (next, { written := rows.length }) := by
  have hok : ∃ stored next, m.insert k table rows = (.ok stored, next) := by
    unfold insert
    rw [unlocked, present]
    exact ⟨_, _, rfl⟩
  obtain ⟨stored, next, hok⟩ := hok
  obtain ⟨staging, hsum⟩ := insert_ok hok unstaged kept
  have hall := staging.kept
  have hsame : next.rows table = m.rows table :=
    congrArg (fun t : Catalog (Array Row) => (t.get? table).getD #[]) staging.tables
  rw [hsame, kept, k.keep_of_nodup accepts.distinct,
    k.keep_of_nodup (accepts.front (List.prefix_append _ _)).distinct,
    List.append_cancel_left_eq] at hall
  have hwritten : stored.written = rows.length := by
    rw [← staging.counted, ← hall, List.length_map, Array.length_toList]
  have hstored : stored = { written := rows.length } := by
    obtain ⟨written, duplicateTags⟩ := stored
    simp only at hwritten hsum
    simp only [Stored.mk.injEq]
    omega
  subst hstored
  exact ⟨next, hok, staging⟩

theorem insert_error {m : Memory} {rows : List Row}
    (h : ∃ f, (m.insert k table rows).1 = .error f) :
    m.lockedTable = some table ∨ m.tables.contains table = false := by
  obtain ⟨f, hf⟩ := h
  unfold insert at hf
  split at hf
  · next hl => exact Or.inl hl
  · split at hf
    · next ht => exact Or.inr (by simpa using ht)
    · cases hf

/-! ## Commits -/

theorem get?_settle (tables : Catalog (Array Row)) (s : String × Row) (name : String) :
    (((settle tables s).get? name).getD #[]).toList =
      ((tables.get? name).getD #[]).toList ++ if s.1 = name then [s.2] else [] := by
  rw [settle, Catalog.get?_alter]
  by_cases h : name = s.1
  · subst h
    cases tables.get? s.1 <;> simp
  · simp [h, Ne.symm h]

theorem contains_settle {tables : Catalog (Array Row)} {name : String} (s : String × Row)
    (h : tables.contains name = true) : (settle tables s).contains name = true := by
  unfold Catalog.contains at h ⊢
  rw [settle, Catalog.get?_alter]
  split
  · rfl
  · exact h

theorem rows_commit (m : Memory) (name : String) :
    (m.commit.rows name).toList =
      (m.rows name).toList ++ (m.staged.toList.filter fun s => s.1 = name).map Prod.snd := by
  unfold commit rows
  simp only
  rw [← Array.foldl_toList]
  generalize m.tables = tables
  induction m.staged.toList generalizing tables with
  | nil => simp
  | cons s l ih =>
    rw [List.foldl_cons, ih, get?_settle, List.filter_cons]
    by_cases h : s.1 = name <;> simp [h]

theorem contains_commit {m : Memory} {name : String} (h : m.tables.contains name = true) :
    m.commit.tables.contains name = true := by
  unfold commit
  simp only
  rw [← Array.foldl_toList]
  generalize m.tables = tables at h
  induction m.staged.toList generalizing tables with
  | nil => exact h
  | cons s l ih => exact ih _ (contains_settle s h)

theorem rows_commit_of_unstaged {m : Memory} (h : m.staged = #[]) (name : String) :
    m.commit.rows name = m.rows name := by
  apply Array.toList_inj.mp
  rw [rows_commit, h]
  simp

theorem Staging.rows_commit (h : Staging k table before done s) :
    (s.1.commit.rows table).toList = k.keep done := by
  rw [Memory.rows_commit, List.filter_eq_self.mpr (by simpa using h.ours)]
  exact h.kept

theorem Staging.rows_commit_of_ne (h : Staging k table before done s) {name : String}
    (hn : name ≠ table) : (s.1.commit.rows name).toList = (before.rows name).toList := by
  have : ∀ x ∈ s.1.staged.toList, ¬ x.1 = name := fun x hx he => hn (he.symm.trans (h.ours x hx))
  rw [Memory.rows_commit, List.filter_eq_nil_iff.mpr (by simpa using this)]
  simp [rows, h.tables]

end MapTables.Memory
