import MapTables.Proofs.Load.Balance
import MapTables.Proofs.Load.Beside
import MapTables.Proofs.Load.Sent
import MapTables.Proofs.Store.Ledger

/-!
# A writer that goes on

A writer may be asked for more although a flush of it was refused. Its rows are then each final
or waiting, and its totals those of the final batches, just as long as no transaction was refused
behind a commit and no commit was granted after one that was refused.
-/

namespace MapTables

/-! ## How a flush ends -/

/-- The call that hands the waiting rows of a table to the store. -/
def Writer.handing (w : Writer) (k : TableKind) (a : Except StoreFault Stored) : Call :=
  ⟨.insert k (w.dataset.tableName k) (w.pending k).toList, a⟩

/-- The calls of a flush, and the writer after them. -/
inductive FlushEnd (w : Writer) (k : TableKind) : List Call → Writer → Prop
  | refused (f : StoreFault) : FlushEnd w k [w.handing k (.error f)] w
  | uncommitted (stored : Stored) (f : StoreFault) :
      FlushEnd w k [w.handing k (.ok stored), ⟨.commit, .error f⟩] w
  /-- The batch is final, but no other transaction was begun. -/
  | unbegun (stored : Stored) (f : StoreFault) :
      FlushEnd w k [w.handing k (.ok stored), ⟨.commit, .ok ()⟩, ⟨.beginTransaction, .error f⟩] w
  | settled (stored : Stored) :
      FlushEnd w k [w.handing k (.ok stored), ⟨.commit, .ok ()⟩, ⟨.beginTransaction, .ok ()⟩]
        (w.settle k stored)

/-- What a writer that had no rows comes to: the rows that it was given, the writer and its
calls. -/
inductive Reached (start : Writer) : List Placed → Writer → List Call → Prop
  | start : Reached start [] start []
  | enqueue {R : List Placed} {w : Writer} {calls : List Call} (h : Reached start R w calls)
      (rows : List Placed) : Reached start (R ++ rows) (rows.foldl Writer.enqueue w) calls
  | flush {R : List Placed} {w w' : Writer} {calls new : List Call} (h : Reached start R w calls)
      (k : TableKind) (flush : FlushEnd w k new w') : Reached start R w' (calls ++ new)

section

variable {σ : Type} [Store σ] {start : Writer} {R : List Placed}

def Given (start : Writer) (R : List Placed) (s : Writing (Logged σ)) : Prop :=
  Reached start R s.writer s.store.calls

theorem flush_ends (k : TableKind) (s : Writing (Logged σ)) :
    Triple (· = s) (Writing.flush k)
      (fun _ t => ∃ stored, t.writer = s.writer.settle k stored ∧
        t.store.calls = s.store.calls ++ [s.writer.handing k (.ok stored), ⟨.commit, .ok ()⟩,
          ⟨.beginTransaction, .ok ()⟩])
      (fun e t => ∃ f new, e = .notWritten (s.writer.dataset.tableName k) f ∧
        t.writer = s.writer ∧ t.store.calls = s.store.calls ++ new ∧
        FlushEnd s.writer k new s.writer ∧ ∃ c ∈ new, c.granted = false) := by
  unfold Writing.flush
  refine Triple.get_bind fun s hs => ?_
  subst hs
  simp only
  -- Up to the end of the flush the writer is as it was.
  have asked (r : Request) (calls : List Call)
      (hf : ∀ f, FlushEnd s.writer k (calls ++ [⟨r, .error f⟩]) s.writer) :
      Triple (fun t : Writing (Logged σ) => t.writer = s.writer ∧
          t.store.calls = s.store.calls ++ calls)
        (Writing.ask r (.notWritten (s.writer.dataset.tableName k)))
        (fun a t => t.writer = s.writer ∧ t.store.calls = s.store.calls ++ (calls ++ [⟨r, .ok a⟩]))
        (fun e t => ∃ f new, e = .notWritten (s.writer.dataset.tableName k) f ∧
          t.writer = s.writer ∧ t.store.calls = s.store.calls ++ new ∧
          FlushEnd s.writer k new s.writer ∧ ∃ c ∈ new, c.granted = false) := by
    refine Triple.of_state fun t ⟨hw, hc⟩ => ?_
    refine (Logged.ask_spec r _ t).weaken (fun _ h => h) ?_ ?_
    · rintro a u ⟨hw', hc'⟩
      exact ⟨hw'.trans hw, by rw [hc', hc, List.append_assoc]⟩
    · rintro _ u ⟨f, rfl, hw', hc'⟩
      refine ⟨f, _, rfl, hw'.trans hw, ?_, hf f, ⟨r, .error f⟩, by simp, rfl⟩
      rw [hc', hc, List.append_assoc]
  refine Triple.bind ((asked (.insert k (s.writer.dataset.tableName k) (s.writer.pending k).toList)
    [] .refused).weaken ?_ (fun _ _ h => h) fun _ _ h => h) fun stored => ?_
  · rintro _ rfl
    exact ⟨rfl, (List.append_nil _).symm⟩
  refine Triple.bind (asked .commit _ (.uncommitted stored)) fun _ => ?_
  refine Triple.bind (asked .beginTransaction _ (.unbegun stored)) fun _ => ?_
  refine Triple.bind (Q := fun _ t => t.writer = s.writer ∧ t.store.calls = s.store.calls ++ _)
    (Triple.modify fun _ h => h) fun _ => Triple.modify fun t ⟨hw, hc⟩ => ?_
  exact ⟨stored, by rw [hw], hc⟩

theorem flush_given (k : TableKind) :
    Triple (Given start R) (Writing.flush k : WritingM (Logged σ) Unit) (fun _ => Given start R)
      (fun _ => Given start R) := by
  refine Triple.of_state fun s hs => (flush_ends k s).weaken (fun _ h => h) ?_ ?_
  · rintro _ t ⟨stored, hw, hc⟩
    unfold Given
    rw [hw, hc]
    exact .flush hs k (.settled stored)
  · rintro _ t ⟨f, new, -, hw, hc, hf, -⟩
    unfold Given
    rw [hw, hc]
    exact .flush hs k hf

theorem flushIfDue_given (k : TableKind) :
    Triple (Given start R) (Writing.flushIfDue k : WritingM (Logged σ) Bool)
      (fun _ => Given start R) (fun _ => Given start R) := by
  unfold Writing.flushIfDue
  refine Triple.get_bind fun s hs => ?_
  split
  · refine Triple.bind (Q := fun _ => Given start R) ?_ fun _ => Triple.pure fun _ h => h
    exact (flush_given k).weaken (fun _ h => h ▸ hs) (fun _ _ h => h) fun _ _ h => h
  · exact Triple.pure fun _ h => h ▸ hs

theorem poll_given :
    Triple (Given start R) (Writing.poll : WritingM (Logged σ) Unit) (fun _ => Given start R)
      (fun _ => Given start R) :=
  Triple.forM (I := fun _ => Given start R) TableKind.all fun _ k _ _ =>
    Triple.bind (flushIfDue_given k) fun _ => Triple.pure fun _ h => h

theorem flushAll_given :
    Triple (Given start R) (Writing.flushAll : WritingM (Logged σ) Unit) (fun _ => Given start R)
      (fun _ => Given start R) := by
  refine Triple.forM (I := fun _ => Given start R) TableKind.all fun _ k _ _ => ?_
  refine Triple.get_bind fun s hs => ?_
  split
  · exact Triple.pure fun _ h => h ▸ hs
  · exact (flush_given k).weaken (fun _ h => h ▸ hs) (fun _ _ h => h) fun _ _ h => h

end

/-! ## Calls without a break -/

/-- Each transaction that was asked for was begun, and once a commit was refused none was
granted. -/
structure Seamless (calls : List Call) : Prop where
  begun : ∀ c ∈ calls, c.request = .beginTransaction → c.granted = true
  committed : calls.Pairwise fun c c' => c.request = .commit → c'.request = .commit →
    c'.granted = true → c.granted = true

def Uncommitted (calls : List Call) : Prop :=
  ∃ c ∈ calls, c.request = .commit ∧ c.granted = false

instance (calls : List Call) : Decidable (Seamless calls) :=
  decidable_of_iff ((∀ c ∈ calls, c.request = .beginTransaction → c.granted = true) ∧
      calls.Pairwise fun c c' => c.request = .commit → c'.request = .commit →
        c'.granted = true → c.granted = true)
    ⟨fun h => ⟨h.1, h.2⟩, fun h => ⟨h.begun, h.committed⟩⟩

theorem uncommitted_append {calls new : List Call} :
    Uncommitted (calls ++ new) ↔ Uncommitted calls ∨ Uncommitted new := by
  simp only [Uncommitted, List.mem_append, or_and_right, exists_or]

theorem Seamless.front {calls new : List Call} (h : Seamless (calls ++ new)) : Seamless calls :=
  ⟨fun c hc => h.begun c (List.mem_append_left _ hc), (List.pairwise_append.mp h.committed).1⟩

theorem Seamless.append_iff {calls new : List Call} (hs : Seamless calls) (hn : Seamless new) :
    Seamless (calls ++ new) ↔
      ((∃ c ∈ new, c.request = .commit ∧ c.granted = true) → ¬ Uncommitted calls) := by
  constructor
  · rintro h ⟨c', hc', hr', hg'⟩ ⟨c, hc, hr, hg⟩
    rw [(List.pairwise_append.mp h.committed).2.2 c hc c' hc' hr hr' hg'] at hg
    cases hg
  · intro h
    refine ⟨fun c hc => (List.mem_append.mp hc).elim (hs.begun c) (hn.begun c), ?_⟩
    refine List.pairwise_append.mpr ⟨hs.committed, hn.committed, fun c hc c' hc' hr hr' hg' => ?_⟩
    by_contra hg
    exact h ⟨c', hc', hr', hg'⟩ ⟨c, hc, hr, by simpa using hg⟩

/-! ## What a flush adds to the ledger -/

namespace FlushEnd

variable {w w' : Writer} {k : TableKind} {calls new : List Call}

def batch (w : Writer) (k : TableKind) (stored : Stored) : Executed :=
  ⟨k, (w.pending k).toList, stored⟩

theorem handing (h : FlushEnd w k new w') : ∃ a rest, new = w.handing k a :: rest ∧
    ∀ c ∈ rest, c.request.method ≠ .insert := by
  cases h with
  | refused f => exact ⟨_, [], rfl, nofun⟩
  | uncommitted stored f => exact ⟨_, _, rfl, by simp [Request.method]⟩
  | unbegun stored f => exact ⟨_, _, rfl, by simp [Request.method]⟩
  | settled stored => exact ⟨_, _, rfl, by simp [Request.method]⟩

theorem isOfFlush (h : FlushEnd w k new w') : ∀ c ∈ new, c.request.IsOfFlush w.dataset := by
  cases h <;> simp [Writer.handing, Request.IsOfFlush.insert, Request.IsOfFlush.commit,
    Request.IsOfFlush.beginTransaction]

theorem dataset (h : FlushEnd w k new w') : w'.dataset = w.dataset := by
  cases h <;> rfl

end FlushEnd

namespace Reached

variable {start w : Writer} {R : List Placed} {calls : List Call}

theorem dataset (h : Reached start R w calls) : w.dataset = start.dataset := by
  induction h with
  | start => rfl
  | enqueue _ rows ih => rw [Writer.dataset_enqueueAll, ih]
  | flush _ k flush ih => rw [flush.dataset, ih]

theorem isOfFlush (h : Reached start R w calls) :
    ∀ c ∈ calls, c.request.IsOfFlush start.dataset := by
  induction h with
  | start => exact nofun
  | enqueue _ _ ih => exact ih
  | flush h k flush ih =>
    intro c hc
    rcases List.mem_append.mp hc with hc | hc
    · exact ih c hc
    · exact h.dataset ▸ flush.isOfFlush c hc

/-- Between two flushes only a batch whose commit was refused is staged. -/
theorem staged (h : Reached start R w calls) :
    (ledger calls).staged = [] ∨ Uncommitted calls := by
  induction h with
  | start => exact Or.inl rfl
  | enqueue _ _ ih => exact ih
  | flush h k flush ih =>
    rw [ledger_append, uncommitted_append]
    cases flush with
    | refused f => exact ih.imp_right Or.inl
    | uncommitted stored f => exact Or.inr (Or.inr ⟨⟨.commit, .error f⟩, by simp, rfl, rfl⟩)
    | unbegun stored f => exact Or.inl rfl
    | settled stored => exact Or.inl rfl

end Reached

/-! ## Rows and totals -/

/-- Of the rows that were enqueued for a table the final ones come first, and the others wait. No
batch hands a final row to the store again, and the totals are those of the final batches. -/
structure Kept (k : TableKind) (rows : List Row) (w : Writer) (calls : List Call) : Prop where
  apart : rows = (committedTo k calls).flatMap Executed.rows ++ (w.pending k).toList
  once : ∀ before table batch a after, calls = before ++ ⟨.insert k table batch, a⟩ :: after →
    (committedTo k before).flatMap Executed.rows ++ batch <+: rows
  flushes : (w.buffers.get k).totals.flushes = (committedTo k calls).length
  written : (w.buffers.get k).totals.written = writtenTo k (ledger calls).committed

namespace Kept

variable {k : TableKind} {rows : List Row} {w w' : Writer} {calls new : List Call}

theorem enqueue (h : Kept k rows w calls) (added : List Placed) :
    Kept k (rows ++ rowsFor k added) (added.foldl Writer.enqueue w) calls := by
  refine ⟨?_, fun before table batch a after hc => ?_, ?_, ?_⟩
  · rw [Writer.pending_enqueueAll, ← List.append_assoc, ← h.apart]
  · exact (h.once before table batch a after hc).trans (List.prefix_append _ _)
  · rw [Writer.totals_enqueueAll, h.flushes]
  · rw [Writer.totals_enqueueAll, h.written]

theorem handed {j : TableKind} (h : Kept k rows w calls) (flush : FlushEnd w j new w') :
    ∀ before table batch a after, calls ++ new = before ++ ⟨.insert k table batch, a⟩ :: after →
      (committedTo k before).flatMap Executed.rows ++ batch <+: rows := by
  intro before table batch a after hc
  obtain ⟨b, rest, rfl, hrest⟩ := flush.handing
  rcases List.append_eq_append_iff.mp hc with ⟨front, rfl, hnew⟩ | ⟨back, rfl, hnew⟩
  · cases front with
    | nil =>
      rw [List.append_nil]
      cases hnew
      exact h.apart ▸ List.prefix_refl _
    | cons x front =>
      obtain ⟨rfl, rfl⟩ := List.cons.inj hnew
      exact (hrest _ (List.mem_append_right front List.mem_cons_self) rfl).elim
  · cases back with
    | nil =>
      rw [List.nil_append] at hnew
      cases hnew
      rw [List.append_nil] at h
      exact h.apart ▸ List.prefix_refl _
    | cons x back =>
      obtain ⟨rfl, rfl⟩ := List.cons.inj hnew
      exact h.once before table batch a back rfl

theorem unsettled {j : TableKind} (h : Kept k rows w calls) (flush : FlushEnd w j new w)
    (hl : (ledger (calls ++ new)).committed = (ledger calls).committed) :
    Kept k rows w (calls ++ new) := by
  have hk : committedTo k (calls ++ new) = committedTo k calls := by
    unfold committedTo
    rw [hl]
  exact ⟨by rw [hk]; exact h.apart, h.handed flush, by rw [hk]; exact h.flushes,
    by rw [hl]; exact h.written⟩

theorem settled {j : TableKind} {stored : Stored} (h : Kept k rows w calls)
    (flush : FlushEnd w j new (w.settle j stored))
    (hl : (ledger (calls ++ new)).committed =
      (ledger calls).committed ++ [FlushEnd.batch w j stored]) :
    Kept k rows (w.settle j stored) (calls ++ new) := by
  have hk : committedTo k (calls ++ new) =
      committedTo k calls ++ [FlushEnd.batch w j stored].filter (·.kind == k) := by
    unfold committedTo
    rw [hl, List.filter_append]
  have hwritten := writtenTo_append k (ledger calls).committed [FlushEnd.batch w j stored]
  rw [writtenTo_singleton, ← hl, ← h.written] at hwritten
  refine ⟨?_, h.handed flush, ?_, ?_⟩
  all_goals
    by_cases hj : j = k
    · subst hj
      simp [hk, hwritten, h.apart, h.flushes, Writer.pending, Writer.settle_self, Buffer.settle,
        Totals.add, FlushEnd.batch]
    · simp [hk, hwritten, h.apart, h.flushes, Writer.pending, Writer.settle_of_ne _ _ (Ne.symm hj),
        hj, FlushEnd.batch]

end Kept

theorem Reached.kept {start w : Writer} {R : List Placed} {calls : List Call}
    (h : Reached start R w calls) (hs : Seamless calls) (fresh : ∀ k, start.buffers.get k = {}) :
    ∀ k, Kept k (rowsFor k R) w calls := by
  induction h with
  | start => exact fun k => ⟨by simp [Writer.pending, fresh, committedTo, ledger], by simp,
      by simp [fresh, committedTo, ledger], by rw [fresh]; rfl⟩
  | enqueue _ rows ih =>
    intro k
    rw [rowsFor_append]
    exact (ih hs k).enqueue rows
  | @flush R w w' calls new h j flush ih =>
    intro k
    have hk := ih hs.front k
    have hl := ledger_append calls new
    cases flush with
    | refused f => exact hk.unsettled (.refused f) (by rw [hl]; rfl)
    | uncommitted stored f => exact hk.unsettled (.uncommitted stored f) (by rw [hl]; rfl)
    | unbegun stored f =>
      have := hs.begun ⟨.beginTransaction, .error f⟩ (by simp) rfl
      cases this
    | settled stored =>
      refine hk.settled (.settled stored) ?_
      -- A refused commit would be followed by this one, which was granted.
      have hstaged : (ledger calls).staged = [] := by
        refine h.staged.resolve_right ?_
        rintro ⟨c, hc, hr, hg⟩
        have := (List.pairwise_append.mp hs.committed).2.2 c hc ⟨.commit, .ok ()⟩ (by simp) hr rfl rfl
        rw [hg] at this
        cases this
      rw [hl]
      change (ledger calls).committed ++ ((ledger calls).staged ++ _) = _
      rw [hstaged]
      rfl

/-! ## Where the calls have a break -/

/-- A table's totals lack one of its final batches. -/
def Behind (w : Writer) (calls : List Call) : Prop :=
  ∃ k, (w.buffers.get k).totals.flushes < (committedTo k calls).length

/-- How far the totals are from the final batches. -/
structure Lagging (w : Writer) (calls : List Call) : Prop where
  le : ∀ k, (w.buffers.get k).totals.flushes ≤ (committedTo k calls).length
  left : Uncommitted calls → (ledger calls).staged ≠ [] ∨ Behind w calls
  broken : ¬ Seamless calls → Behind w calls

namespace Lagging

variable {w : Writer} {k : TableKind} {calls new : List Call}

theorem unsettled (h : Lagging w calls) (seamless : Seamless new)
    (none : ∀ c ∈ new, c.request = .commit → c.granted = false)
    (hl : (ledger (calls ++ new)).committed = (ledger calls).committed)
    (hstaged : (ledger (calls ++ new)).staged ≠ [] ∨
      ((ledger (calls ++ new)).staged = (ledger calls).staged ∧ ¬ Uncommitted new)) :
    Lagging w (calls ++ new) := by
  have hk (j : TableKind) : committedTo j (calls ++ new) = committedTo j calls := by
    unfold committedTo
    rw [hl]
  have hbehind : Behind w (calls ++ new) ↔ Behind w calls := by simp only [Behind, hk]
  refine ⟨fun j => by rw [hk]; exact h.le j, fun hu => ?_, fun hs => hbehind.mpr (h.broken ?_)⟩
  · rcases hstaged with hne | ⟨he, hn⟩
    · exact Or.inl hne
    · rw [he, hbehind]
      exact h.left ((uncommitted_append.mp hu).resolve_right hn)
  · intro hcalls
    refine hs ((hcalls.append_iff seamless).mpr ?_)
    rintro ⟨c, hc, hr, hg⟩
    rw [none c hc hr] at hg
    cases hg

theorem count_of_committed {w₀ : Writer} {stored : Stored} {calls' : List Call}
    (hl : (ledger calls').committed =
      (ledger calls).committed ++ ((ledger calls).staged ++ [FlushEnd.batch w₀ k stored]))
    (j : TableKind) :
    (committedTo j calls').length = (committedTo j calls).length +
      (((ledger calls).staged.filter (·.kind == j)).length + if k = j then 1 else 0) := by
  unfold committedTo
  rw [hl, List.filter_append, List.filter_append, List.length_append, List.length_append]
  by_cases hj : k = j <;> simp [FlushEnd.batch, hj]

theorem enqueue (h : Lagging w calls) (rows : List Placed) :
    Lagging (rows.foldl Writer.enqueue w) calls := by
  have hbehind : Behind (rows.foldl Writer.enqueue w) calls ↔ Behind w calls := by
    simp only [Behind, Writer.totals_enqueueAll]
  refine ⟨fun j => ?_, fun hu => ?_, fun hs => hbehind.mpr (h.broken hs)⟩
  · rw [Writer.totals_enqueueAll]
    exact h.le j
  · rw [hbehind]
    exact h.left hu

theorem unbegun (h : Lagging w calls) {stored : Stored}
    (hl : (ledger (calls ++ new)).committed =
      (ledger calls).committed ++ ((ledger calls).staged ++ [FlushEnd.batch w k stored])) :
    Lagging w (calls ++ new) := by
  have hcount := count_of_committed hl
  have behind : Behind w (calls ++ new) := by
    refine ⟨k, ?_⟩
    have := h.le k
    have := hcount k
    rw [if_pos rfl] at this
    omega
  refine ⟨fun j => ?_, fun _ => Or.inr behind, fun _ => behind⟩
  have := h.le j
  have := hcount j
  omega

theorem settled (h : Lagging w calls) {stored : Stored} (seamless : Seamless new)
    (granted : ¬ Uncommitted new)
    (hl : (ledger (calls ++ new)).committed =
      (ledger calls).committed ++ ((ledger calls).staged ++ [FlushEnd.batch w k stored])) :
    Lagging (w.settle k stored) (calls ++ new) := by
  have hcount := count_of_committed hl
  have totals (j : TableKind) : ((w.settle k stored).buffers.get j).totals.flushes =
      (w.buffers.get j).totals.flushes + if k = j then 1 else 0 := by
    by_cases hj : k = j
    · subst hj
      simp [Writer.settle_self, Buffer.settle, Totals.add]
    · simp [Writer.settle_of_ne _ _ (Ne.symm hj), hj]
  have behind (hb : (ledger calls).staged ≠ [] ∨ Behind w calls) :
      Behind (w.settle k stored) (calls ++ new) := by
    rcases hb with hne | ⟨j, hj⟩
    · obtain ⟨b, hb⟩ := List.exists_mem_of_ne_nil _ hne
      have hpos : 0 < ((ledger calls).staged.filter (·.kind == b.kind)).length :=
        List.length_pos_of_mem (List.mem_filter.mpr ⟨hb, beq_self_eq_true b.kind⟩)
      refine ⟨b.kind, ?_⟩
      have := h.le b.kind
      have := hcount b.kind
      rw [totals]
      omega
    · refine ⟨j, ?_⟩
      have := hcount j
      rw [totals]
      omega
  refine ⟨fun j => ?_, fun hu => ?_, fun hs => behind ?_⟩
  · have := h.le j
    have := hcount j
    rw [totals]
    omega
  · exact Or.inr (behind (h.left ((uncommitted_append.mp hu).resolve_right granted)))
  · by_cases hc : Seamless calls
    · -- The break is here: a commit was refused before the one of this flush.
      refine h.left ?_
      by_contra hu
      exact hs ((hc.append_iff seamless).mpr fun _ => hu)
    · exact Or.inr (h.broken hc)

end Lagging

theorem Reached.lagging {start w : Writer} {R : List Placed} {calls : List Call}
    (h : Reached start R w calls) (fresh : ∀ k, start.buffers.get k = {}) : Lagging w calls := by
  induction h with
  | start =>
    refine ⟨fun k => ?_, fun ⟨_, hc, _⟩ => (nomatch hc), fun hs => (hs ⟨nofun, .nil⟩).elim⟩
    rw [fresh]
    exact Nat.zero_le _
  | enqueue _ rows ih => exact ih.enqueue rows
  | flush h k flush ih =>
    have hl := ledger_append
    cases flush with
    | refused f =>
      exact ih.unsettled ⟨by simp [Writer.handing], by simp⟩ (by simp [Writer.handing])
        (by rw [hl]; rfl) (Or.inr ⟨by rw [hl]; rfl, by simp [Uncommitted, Writer.handing]⟩)
    | uncommitted stored f =>
      refine ih.unsettled ⟨by simp [Writer.handing], by simp [Writer.handing]⟩
        (by simp [Writer.handing, Call.granted]) (by rw [hl]; rfl) (Or.inl ?_)
      rw [hl]
      exact List.append_ne_nil_of_right_ne_nil _ (List.cons_ne_nil _ _)
    | unbegun stored f => exact ih.unbegun (by rw [hl]; rfl)
    | settled stored =>
      exact ih.settled ⟨by simp [Writer.handing, Call.granted], by simp [Writer.handing]⟩
        (by simp [Uncommitted, Writer.handing, Call.granted]) (by rw [hl]; rfl)

/-! ## Writers under faults -/

/-- What a writer can be asked for between two features. -/
inductive Writing.Action where
  | enqueue (row : Placed)
  | flushIfDue (k : TableKind)
  | poll
  | flushAll

namespace Writing

variable {σ : Type} [Store σ]

def Action.run : Action → WritingM σ Unit
  | .enqueue row => Writing.enqueue [row]
  | .flushIfDue k => do
    let _ ← Writing.flushIfDue k
  | .poll => Writing.poll
  | .flushAll => Writing.flushAll

def Action.rows : Action → List Placed
  | .enqueue row => [row]
  | _ => []

/-- A writer goes on with the next action, also after a fault. -/
def after (s : Writing σ) (actions : List Action) : Writing σ :=
  actions.foldl (fun t a => (a.run t).2) s

theorem Action.run_given {start : Writer} {R : List Placed} {s : Writing (Logged σ)}
    (h : Given start R s) (a : Action) : Given start (R ++ a.rows) (a.run s).2 := by
  have kept {x : WritingM (Logged σ) Unit}
      (hx : Triple (Given start R) x (fun _ => Given start R) fun _ => Given start R) :
      Given start (R ++ []) (x s).2 := by
    rw [List.append_nil]
    exact (hx s h).result (P := fun _ => Given start R)
  cases a with
  | enqueue row => exact h.enqueue [row]
  | flushIfDue k => exact kept (Triple.bind (flushIfDue_given k) fun _ => Triple.pure fun _ h => h)
  | poll => exact kept poll_given
  | flushAll => exact kept flushAll_given

theorem Action.run_moves (a : Action) (s : Writing (Logged σ)) :
    s.store.Moves (a.run s).2.store := by
  have : Nonempty σ := ⟨s.store.store⟩
  have follows : Follows (bond σ σ Eq) a.run a.run := by
    cases a with
    | enqueue row => exact enqueue_follows [row]
    | flushIfDue k => exact .bind (flushIfDue_follows k) fun _ => .pure
    | poll => exact poll_follows
    | flushAll => exact flushAll_follows
  exact follows.moves s

theorem after_given {start : Writer} {R : List Placed} {s : Writing (Logged σ)}
    (h : Given start R s) (actions : List Action) :
    Given start (R ++ actions.flatMap Action.rows) (s.after actions) ∧
      s.store.Moves (s.after actions).store := by
  induction actions generalizing R s with
  | nil =>
    rw [List.flatMap_nil, List.append_nil]
    exact ⟨h, .refl _⟩
  | cons a actions ih =>
    obtain ⟨hgiven, hmoves⟩ := ih (a.run_given h)
    rw [List.append_assoc] at hgiven
    exact ⟨hgiven, (a.run_moves s).trans hmoves⟩

end Writing

/-- Whatever is asked of a writer on a memory that may refuse any request: in each table the rows
that were enqueued are its final ones and, behind them, those that wait, and the totals are those
of the final batches, just if no transaction was refused behind a commit and no commit was granted
after one that was refused. -/
theorem writer_keeps_rows_and_totals {σ : Type} [Store σ] {view : σ → Memory} {refusing : Prop}
    (dr : Drives view refusing) (s : σ) (h : (view s).staged = #[]) (d : Dataset) (n : Nat)
    (actions : List Writing.Action) :
    let t := Writing.after ⟨⟨d, n, .const {}⟩, Logged.mk s [], #[]⟩ actions
    (∀ k, Kept k (rowsFor k (actions.flatMap Writing.Action.rows)) t.writer t.store.calls ∧
      ((view t.store.store).rows (d.tableName k)).size =
        ((view s).rows (d.tableName k)).size + (t.writer.buffers.get k).totals.written) ↔
    Seamless t.store.calls := by
  intro t
  have fresh (k : TableKind) : (PerTable.const ({} : Buffer)).get k = {} := by cases k <;> rfl
  obtain ⟨reached, new, hnew, answers⟩ := Writing.after_given
    (s := ⟨⟨d, n, .const {}⟩, Logged.mk s [], #[]⟩) Reached.start actions
  rw [List.nil_append] at reached hnew
  constructor
  · intro kept
    by_contra hs
    obtain ⟨k, hk⟩ := (reached.lagging fresh).broken hs
    exact absurd (kept k).1.flushes (Nat.ne_of_lt hk)
  · intro hs k
    have kept := reached.kept hs fresh k
    refine ⟨kept, ?_⟩
    have tells := (Ledger.Tells.start (d := d) h).calls dr (hnew ▸ reached.isOfFlush) answers
    rw [kept.written, hnew]
    exact tells.gained k

/-- Here the first batch is refused, and the next poll stores it. -/
theorem writer_keeps_rows_and_totals_of_refused_batch :
    let d : Dataset := ⟨"t", by decide⟩
    let s : Supervised Memory :=
      { store := { tables := ⟨[("t_way", #[])]⟩ }
        fails := .nth fun m => if m = .insert then some 1 else none }
    let actions := [Writing.Action.enqueue (.way, .way { id := 1 }), .poll, .poll]
    let t := Writing.after ⟨⟨d, 1, .const {}⟩, Logged.mk s [], #[]⟩ actions
    s.store.staged = #[] ∧ Seamless t.store.calls ∧
    t.store.calls.map Call.granted = [false, true, true, true] ∧
    ∀ k, Kept k (rowsFor k (actions.flatMap Writing.Action.rows)) t.writer t.store.calls ∧
      (t.store.store.store.rows (d.tableName k)).size =
        (s.store.rows (d.tableName k)).size + (t.writer.buffers.get k).totals.written := by
  intro d s actions t
  have seamless : Seamless t.store.calls := by decide +kernel
  exact ⟨rfl, seamless, by decide +kernel,
    (writer_keeps_rows_and_totals drives_supervised s rfl d 1 actions).mpr seamless⟩

/-- After a commit whose next transaction is refused, the row is final and waits, and the totals
do not have it. The next poll stores it once more. -/
theorem poll_stores_final_row_again :
    let row : Row := .way { id := 1 }
    let s : Supervised Memory :=
      { store := { tables := ⟨[("t_way", #[])]⟩ }
        fails := .nth fun m => if m = .beginTransaction then some 1 else none }
    let after := Writing.after ⟨⟨⟨"t", by decide⟩, 1, .const {}⟩, s, #[]⟩
    let once := after [.enqueue (.way, row), .poll]
    let twice := after [.enqueue (.way, row), .poll, .poll]
    once.store.store.rows "t_way" = #[row] ∧ once.writer.pending .way = #[row] ∧
    (once.writer.buffers.get .way).totals = {} ∧
    twice.store.store.rows "t_way" = #[row, row] ∧ twice.writer.pending .way = #[] ∧
    (twice.writer.buffers.get .way).totals = { flushes := 1, written := 1 } := by
  decide +kernel

end MapTables
