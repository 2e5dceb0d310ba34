import MapTables.Proofs.Load.Parts
import MapTables.Proofs.Load.Plain
import MapTables.Proofs.Store.Logged

/-!
# The calls of a load

A load asks its store for one thing after another, as laid down by a script: the tables
are made, then batches are stored, each in a transaction of its own. It keeps to the
script until a call gives a reason to stop or the document ends, and in any case takes
back what is not final and lets the store go.
-/

namespace MapTables

/-! ## The script -/

/-- The requests that make the tables and begin the first transaction. -/
def openingRequests (d : Dataset) (drop : Bool) : List Request :=
  (if drop then d.tableNames.map Request.dropTable else []) ++
    d.tableNames.map Request.tableExists ++
    d.tables.map (fun t => Request.createTable t.1 t.2) ++ [.beginTransaction]

/-- Rows that are stored together, with their table. -/
abbrev Batch := TableKind × List Row

/-- A batch is stored and made final, and the next transaction begins. -/
def batchRequests (d : Dataset) (b : Batch) : List Request :=
  [.insert b.1 (d.tableName b.1) b.2, .commit, .beginTransaction]

def script (d : Dataset) (drop : Bool) (batches : List Batch) : List Request :=
  openingRequests d drop ++ batches.flatMap (batchRequests d)

/-- The calls so far are those of a script, and none of them gave a reason to stop. -/
def Scripted (d : Dataset) (drop : Bool) (calls : List Call) : Prop :=
  ∃ batches : List Batch, (∀ b ∈ batches, b.2 ≠ []) ∧ Passed (script d drop batches) calls

/-- The calls are the first ones of a script, and the last of them gave a reason to stop. -/
def Halted (d : Dataset) (drop : Bool) (calls : List Call) : Prop :=
  ∃ (batches : List Batch) (requests : List Request), (∀ b ∈ batches, b.2 ≠ []) ∧
    requests <+: script d drop batches ∧ Failed requests calls

/-- The calls of a whole load, and whether it went well. -/
inductive Protocol (d : Dataset) (drop : Bool) : List Call → Bool → Prop
  /-- All is made final. The store may still refuse to be let go. -/
  | completed {calls : List Call} {commit release : Call} (scripted : Scripted d drop calls)
      (hc : commit.request = .commit) (committed : commit.passes = true)
      (hr : release.request = .release) :
      Protocol d drop (calls ++ [commit, release]) release.passes
  | uncommitted {calls : List Call} {commit rollback release : Call}
      (scripted : Scripted d drop calls) (hc : commit.request = .commit)
      (refused : commit.passes = false) (hb : rollback.request = .rollback)
      (hr : release.request = .release) :
      Protocol d drop (calls ++ [commit, rollback, release]) false
  /-- The load was ended by its input or its watcher, or a call gave a reason to stop. -/
  | aborted {calls : List Call} {rollback release : Call}
      (ended : Scripted d drop calls ∨ Halted d drop calls) (hb : rollback.request = .rollback)
      (hr : release.request = .release) :
      Protocol d drop (calls ++ [rollback, release]) false

/-! ## Transactions of the script -/

theorem opens_opening (d : Dataset) (drop : Bool) :
    (openingRequests d drop).foldl Request.opens false = true := by
  unfold openingRequests
  rw [List.foldl_append]
  rfl

theorem not_insert_opening {d : Dataset} {drop : Bool} {r : Request}
    (h : r ∈ openingRequests d drop) : r.method ≠ .insert := by
  unfold openingRequests at h
  simp only [List.mem_append, List.mem_map, List.mem_singleton] at h
  rcases h with ((h | ⟨_, -, rfl⟩) | ⟨_, -, rfl⟩) | rfl
  · split at h
    · obtain ⟨_, -, rfl⟩ := List.mem_map.mp h
      intro hm
      cases hm
    · cases h
  all_goals
    intro hm
    cases hm

theorem opens_before_batch {d : Dataset} {batches : List Batch} {before : List Request} {r : Request}
    (h : before ++ [r] <+: batches.flatMap (batchRequests d)) (hr : r.method = .insert) :
    before.foldl Request.opens true = true := by
  induction batches generalizing before with
  | nil =>
    have := h.length_le
    simp at this
  | cons b batches ih =>
    rw [List.flatMap_cons, batchRequests] at h
    match before with
    | [] => rfl
    | [x] =>
      obtain ⟨-, h⟩ := List.cons_prefix_cons.mp h
      obtain ⟨rfl, -⟩ := List.cons_prefix_cons.mp h
      cases hr
    | [x, y] =>
      obtain ⟨-, h⟩ := List.cons_prefix_cons.mp h
      obtain ⟨-, h⟩ := List.cons_prefix_cons.mp h
      obtain ⟨rfl, -⟩ := List.cons_prefix_cons.mp h
      cases hr
    | x :: y :: z :: before =>
      obtain ⟨-, h1⟩ := List.cons_prefix_cons.mp h
      obtain ⟨-, h2⟩ := List.cons_prefix_cons.mp h1
      obtain ⟨rfl, h3⟩ := List.cons_prefix_cons.mp h2
      have hb : before.foldl Request.opens true = true := ih h3
      exact hb

theorem opens_before_insert {d : Dataset} {drop : Bool} {batches : List Batch}
    {before : List Request} {r : Request} (h : before ++ [r] <+: script d drop batches)
    (hr : r.method = .insert) : before.foldl Request.opens false = true := by
  have opening {l : List Request} (hl : before ++ [r] <+: l) (he : l = openingRequests d drop) :
      False := not_insert_opening (he ▸ hl.subset (List.mem_append_right _ List.mem_cons_self)) hr
  rcases List.prefix_or_prefix_of_prefix h (List.prefix_append _ _) with ho | ho
  · exact (opening ho rfl).elim
  · rcases List.prefix_concat_iff.mp ho with he | ⟨rest, rfl⟩
    · exact (opening (List.prefix_refl _) he.symm).elim
    · rw [List.foldl_append, opens_opening]
      rw [script, List.append_assoc, List.prefix_append_right_inj] at h
      exact opens_before_batch h hr

/-! ## What the protocol comes to -/

theorem Scripted.insert_inTransaction {d : Dataset} {drop : Bool} {calls before after : List Call}
    {c : Call} (h : Scripted d drop calls ∨ Halted d drop calls) (he : calls = before ++ c :: after)
    (hc : c.request.method = .insert) : MapTables.inTransaction before = true := by
  have passed : ∃ batches, before.map Call.request ++ [c.request] <+: script d drop batches ∧
      ∀ x ∈ before, x.passes = true := by
    rcases h with ⟨batches, -, hr, hp⟩ | ⟨batches, requests, -, hpre, front, last, hfl, -, hp, hr⟩
    · refine ⟨batches, ⟨after.map Call.request, ?_⟩, fun x hx => hp x ?_⟩
      · rw [← hr, he]; simp
      · rw [he]; exact List.mem_append_left _ hx
    · refine ⟨batches, List.IsPrefix.trans ⟨after.map Call.request, ?_⟩ hpre, fun x hx => hp x ?_⟩
      · rw [← hr, he]; simp
      · -- The call that gave a reason to stop is the last one, so it is not before another.
        have hle : before.length ≤ front.length := by
          have := congrArg List.length (he.symm.trans hfl)
          simp only [List.length_append, List.length_cons, List.length_nil] at this
          omega
        have hbf : before <+: front := List.prefix_of_prefix_length_le
          ⟨c :: after, he.symm⟩ ⟨[last], hfl.symm⟩ hle
        exact hbf.subset hx
  obtain ⟨batches, hpre, hp⟩ := passed
  rw [Passed.inTransaction_eq ⟨rfl, hp⟩]
  exact opens_before_insert hpre hc

theorem method_of_script {d : Dataset} {drop : Bool} {batches : List Batch} {r : Request}
    (h : r ∈ script d drop batches) : r.method ≠ .rollback ∧ r.method ≠ .release := by
  unfold script openingRequests batchRequests at h
  simp only [List.mem_append, List.mem_map, List.mem_flatMap, List.mem_cons, List.not_mem_nil,
    or_false] at h
  rcases h with (((h | ⟨_, -, rfl⟩) | ⟨_, -, rfl⟩) | rfl) | ⟨_, -, rfl | rfl | rfl⟩
  · split at h
    · obtain ⟨_, -, rfl⟩ := List.mem_map.mp h
      exact ⟨nofun, nofun⟩
    · cases h
  all_goals exact ⟨nofun, nofun⟩

theorem mem_script {d : Dataset} {drop : Bool} {calls : List Call}
    (h : Scripted d drop calls ∨ Halted d drop calls) {c : Call} (hc : c ∈ calls) :
    ∃ batches, c.request ∈ script d drop batches := by
  rcases h with ⟨batches, -, hr, -⟩ | ⟨batches, requests, -, hpre, _, _, -, -, -, hr⟩
  · exact ⟨batches, hr ▸ List.mem_map_of_mem hc⟩
  · exact ⟨batches, hpre.subset (hr ▸ List.mem_map_of_mem hc)⟩

theorem released_nowhere {d : Dataset} {drop : Bool} {calls : List Call}
    (h : Scripted d drop calls ∨ Halted d drop calls) :
    ∀ c ∈ calls, c.request.method ≠ .release := by
  intro c hc
  obtain ⟨batches, hr⟩ := mem_script h hc
  exact (method_of_script hr).2

theorem Protocol.parts {d : Dataset} {drop ok : Bool} {calls : List Call}
    (h : Protocol d drop calls ok) : ∃ body ends release, calls = body ++ ends ++ [release] ∧
      (Scripted d drop body ∨ Halted d drop body) ∧ release.request = .release ∧
      ∀ c ∈ ends, c.request = .commit ∨ c.request = .rollback := by
  cases h with
  | @completed body commit release scripted hc _ hr =>
    exact ⟨body, [commit], release, by simp, Or.inl scripted, hr, by simp [hc]⟩
  | @uncommitted body commit rollback release scripted hc _ hb hr =>
    exact ⟨body, [commit, rollback], release, by simp, Or.inl scripted, hr, by simp [hc, hb]⟩
  | @aborted body rollback release ended hb hr =>
    exact ⟨body, [rollback], release, by simp, ended, hr, by simp [hb]⟩

variable {d : Dataset} {drop ok : Bool} {calls before after : List Call} {c : Call}

theorem Protocol.release_last (h : Protocol d drop calls ok) :
    ∃ before release, calls = before ++ [release] ∧ release.request = .release ∧
      ∀ c ∈ before, c.request.method ≠ .release := by
  obtain ⟨body, ends, release, rfl, hbody, hr, hends⟩ := h.parts
  refine ⟨body ++ ends, release, rfl, hr, fun c hc => ?_⟩
  rcases List.mem_append.mp hc with hc | hc
  · exact released_nowhere hbody c hc
  · rcases hends c hc with he | he <;> rw [he] <;> exact nofun

theorem Protocol.insert_inTransaction (h : Protocol d drop calls ok)
    (he : calls = before ++ c :: after) (hc : c.request.method = .insert) :
    inTransaction before = true := by
  obtain ⟨body, ends, release, hcalls, hbody, hr, hends⟩ := h.parts
  have hrest : ∀ x ∈ ends ++ [release], x.request.method ≠ .insert := by
    intro x hx
    rw [List.mem_append, List.mem_singleton] at hx
    rcases hx with hx | rfl
    · rcases hends x hx with he | he <;> rw [he] <;> exact nofun
    · rw [hr]; exact nofun
  rw [hcalls, List.append_assoc, List.append_eq_append_iff] at he
  rcases he with ⟨rest, -, hin⟩ | ⟨rest, hin, hout⟩
  · exact (hrest c (hin ▸ List.mem_append_right _ List.mem_cons_self) hc).elim
  · cases rest with
    | nil => exact (hrest c (hout ▸ List.mem_cons_self) hc).elim
    | cons x rest =>
      obtain ⟨rfl, -⟩ := List.cons.inj hout
      exact Scripted.insert_inTransaction hbody hin hc

theorem Protocol.not_inTransaction (h : Protocol d drop calls ok)
    (hb : ∀ c ∈ calls, c.request = .rollback → c.granted = true) : inTransaction calls = false := by
  have released (body : List Call) {last release : Call} (hr : release.request = .release)
      (hl : last.request = .commit ∨ last.request = .rollback) (hg : last.granted = true) :
      inTransaction (body ++ [last] ++ [release]) = false := by
    rw [inTransaction_concat, inTransaction_concat, hr, hg, if_pos rfl]
    rcases hl with hl | hl <;> rw [hl] <;> exact ite_self _
  cases h with
  | @completed body _ _ _ hc committed hr =>
    simpa using released body hr (Or.inl hc) (granted_of_passes committed)
  | @uncommitted body commit _ _ _ _ _ hrb hr =>
    simpa using released (body ++ [commit]) hr (Or.inr hrb) (hb _ (by simp) hrb)
  | @aborted body _ _ _ hrb hr =>
    simpa using released body hr (Or.inr hrb) (hb _ (by simp) hrb)

end MapTables
