import MapTables.Proofs.Assembly.Totals
import MapTables.Proofs.Load.Balance
import MapTables.Proofs.Load.Calls
import MapTables.Proofs.Load.Halves

/-!
# What waits between two features

Between two features less than a batch waits for each table. So the batches that are stored while a
document is read are full, and those of features' own tables have just that size.
-/

namespace MapTables

variable {σ ω : Type} {d : Dataset} {drop : Bool} {n : Nat}

/-- A batch of at least so many rows, and of just so many if they are features' own. -/
structure Batch.IsFull (n : Nat) (b : Batch) : Prop where
  enough : n ≤ b.2.length
  exact : ∀ k : FeatureKind, b.1 = .ofFeature k → b.2.length = n

def Refused (calls : List Call) : Prop := ∃ c ∈ calls, c.granted = false

/-! ## Rows of a feature's own table -/

theorem TableKind.ofFeature_inj {j k : FeatureKind} (h : TableKind.ofFeature j = .ofFeature k) :
    j = k := by
  cases j <;> cases k <;> first | rfl | cases h

theorem rowsFor_eq_nil {k : TableKind} {rows : List Placed} (h : ∀ r ∈ rows, r.1 ≠ k) :
    rowsFor k rows = [] := by
  rw [rowsFor, List.filter_eq_nil_iff.mpr fun r hr => by simpa using h r hr]
  rfl

theorem Feature.length_rowsFor_rows (f : Feature) (k : FeatureKind) :
    (rowsFor (.ofFeature k) f.rows).length = if f.kind = k then 1 else 0 := by
  have others : rowsFor (.ofFeature k) (f.tagRows ++ f.wayNodeRows) = [] := by
    refine rowsFor_eq_nil fun r hr => ?_
    rw [List.mem_append, tagRows, wayNodeRows, List.mem_map, List.mem_map] at hr
    rcases hr with ⟨_, -, rfl⟩ | ⟨_, -, rfl⟩
    · cases f.kind <;> cases k <;> exact TableKind.noConfusion
    · cases k <;> exact TableKind.noConfusion
  rw [rows, rowsFor_cons, others]
  split
  · next h => rw [if_pos (TableKind.ofFeature_inj h)]; rfl
  · next h => rw [if_neg fun he => h (congrArg TableKind.ofFeature he)]; rfl

theorem rowsFor_member (row : MemberRow) (k : FeatureKind) :
    rowsFor (.ofFeature k) [(.membersOf row.kind, .member row)] = [] := by
  refine rowsFor_eq_nil fun r hr => ?_
  rw [List.mem_singleton.mp hr]
  cases row.kind <;> cases k <;> exact TableKind.noConfusion

namespace Assembler.Takes

variable {a : Assembler} {e : Event} {s : Step}

theorem ofKind_eq_length (h : a.Takes e s) (k : FeatureKind) : s.next.counts.ofKind k =
    a.counts.ofKind k + (rowsFor (.ofFeature k) s.rows).length := by
  cases h with
  | opens => rw [openWith_counts, openWith_rows]; rfl
  | joins =>
    rw [rowsFor_member]
    cases k <;> rfl
  | @closes j f isOpen kind =>
    rw [Feature.length_rowsFor_rows, kind]
    exact Counts.ofKind_addClosed _ _ _
  | _ => cases k <;> rfl

theorem length_rowsFor_le (h : a.Takes e s) (k : FeatureKind) :
    (rowsFor (.ofFeature k) s.rows).length ≤ if s.change.closes then 1 else 0 := by
  cases h with
  | opens => rw [openWith_rows]; exact Nat.zero_le _
  | joins => rw [rowsFor_member]; exact Nat.zero_le _
  | @closes j f =>
    rw [Feature.length_rowsFor_rows]
    split <;> simp [Change.closes]
  | _ => exact Nat.zero_le _

end Assembler.Takes

/-! ## What a flush does -/

section

variable [Store σ]

theorem flush_logged (k : TableKind) (s : Writing (Logged σ)) :
    Triple (· = s) (Writing.flush k)
      (fun _ t => ∃ stored calls, t.writer = s.writer.settle k stored ∧
        t.store.calls = s.store.calls ++ calls ∧
        Passed (batchRequests s.writer.dataset (k, (s.writer.pending k).toList)) calls)
      (fun _ t => Refused t.store.calls) := by
  unfold Writing.flush
  refine Triple.get_bind fun s' hs' => ?_
  obtain rfl := hs'.symm
  simp only
  -- A request that is granted once these were.
  have ask (r : Request) (hr : ∀ a, (Call.mk r (.ok a)).passes = true)
      (fault : StoreFault → LoadFault) (before : List Request) :
      Triple (fun t : Writing (Logged σ) => t.writer = s.writer ∧
          ∃ calls, t.store.calls = s.store.calls ++ calls ∧ Passed before calls)
        (Writing.ask r fault)
        (fun _ t => t.writer = s.writer ∧
          ∃ calls, t.store.calls = s.store.calls ++ calls ∧ Passed (before ++ [r]) calls)
        (fun _ t => Refused t.store.calls) := by
    refine Triple.of_state fun t ⟨hw, calls, hc, hp⟩ => ?_
    refine (Logged.ask_spec r fault t).weaken (fun _ h => h) (fun a u ⟨huw, huc⟩ => ?_) ?_
    · exact ⟨huw.trans hw, calls ++ [⟨r, .ok a⟩], by rw [huc, hc, List.append_assoc],
        hp.concat (hr a)⟩
    · rintro _ u ⟨f, -, -, huc⟩
      exact ⟨⟨r, .error f⟩, by rw [huc]; exact List.mem_append_right _ (List.mem_singleton.mpr rfl),
        rfl⟩
  refine Triple.bind ((ask (.insert k _ _) (fun _ => rfl) _ []).weaken ?_ (fun _ _ h => h)
    fun _ _ h => h) fun stored => ?_
  · rintro _ rfl
    exact ⟨rfl, [], (List.append_nil _).symm, rfl, nofun⟩
  refine Triple.bind (ask .commit (fun _ => rfl) _ _) fun _ => ?_
  refine Triple.bind (ask .beginTransaction (fun _ => rfl) _ _) fun _ => ?_
  refine Triple.bind (Q := fun _ t => t.writer = s.writer ∧
    ∃ calls, t.store.calls = s.store.calls ++ calls ∧ Passed _ calls)
    (Triple.modify fun _ h => h) fun _ => Triple.modify fun t ⟨hw, calls, hc, hp⟩ => ?_
  exact ⟨stored, calls, by rw [hw], hc, hp⟩

end

/-! ## What a writer ships -/

/-- The writer stored full batches. The features of each kind that were counted were stored in
them, or their rows wait. -/
structure Shipping (d : Dataset) (drop : Bool) (n : Nat) (count : FeatureKind → Nat)
    (s : Writing (Logged σ)) : Prop where
  dataset : s.writer.dataset = d
  batchSize : s.writer.batchSize = n
  stored : ∃ batches : List Batch, (∀ b ∈ batches, b.IsFull n) ∧
    Passed (script d drop batches) s.store.calls
  counted : ∀ k, count k = n * (s.writer.buffers.get (.ofFeature k)).totals.flushes +
    (s.writer.pending (.ofFeature k)).size

variable {count : FeatureKind → Nat} {s : Writing (Logged σ)}

theorem Writer.pending_settle_self (w : Writer) (k : TableKind) (stored : Stored) :
    ((w.settle k stored).pending k).size = 0 := by
  rw [pending, settle_self]
  rfl

theorem Writer.pending_settle_of_ne (w : Writer) {j k : TableKind} (stored : Stored) (h : j ≠ k) :
    (w.settle k stored).pending j = w.pending j := by
  rw [pending, settle_of_ne _ _ h, pending]

section

variable [Store σ]

theorem Shipping.flush {k : TableKind} (h : Shipping d drop n count s)
    (due : n ≤ (s.writer.pending k).size)
    (exact : ∀ j : FeatureKind, k = .ofFeature j → (s.writer.pending k).size = n) :
    Triple (· = s) (Writing.flush k)
      (fun _ t => Shipping d drop n count t ∧ ∃ stored, t.writer = s.writer.settle k stored)
      (fun _ t => Refused t.store.calls) := by
  refine (flush_logged k s).weaken (fun _ h => h) ?_ fun _ _ h => h
  rintro _ t ⟨stored, calls, hw, hc, hp⟩
  obtain ⟨batches, hfull, hpassed⟩ := h.stored
  refine ⟨⟨by rw [hw]; exact h.dataset, by rw [hw]; exact h.batchSize,
    ⟨batches ++ [(k, (s.writer.pending k).toList)], ?_, ?_⟩, fun j => ?_⟩, stored, hw⟩
  · intro b hb
    rw [List.mem_append, List.mem_singleton] at hb
    rcases hb with hb | rfl
    · exact hfull b hb
    · refine ⟨?_, fun j hj => ?_⟩
      · rw [Array.length_toList]; exact due
      · rw [Array.length_toList]; exact exact j hj
  · rw [script_concat, hc, ← h.dataset]
    refine ⟨?_, fun c hm => (List.mem_append.mp hm).elim (hpassed.2 c) (hp.2 c)⟩
    rw [List.map_append, hpassed.1, hp.1, h.dataset]
  · rw [hw]
    by_cases hj : TableKind.ofFeature j = k
    · -- The rows that waited are now those of one more flush.
      rw [h.counted j, hj, Writer.pending_settle_self, Writer.settle_self, exact j hj.symm]
      exact (Nat.mul_succ _ _).symm
    · rw [h.counted j, Writer.pending_settle_of_ne _ _ hj, Writer.settle_of_ne _ _ hj]

theorem Shipping.poll (hn : 0 < n) :
    Triple (fun s : Writing (Logged σ) => Shipping d drop n count s ∧
        ∀ k : FeatureKind, (s.writer.pending (.ofFeature k)).size ≤ n)
      Writing.poll
      (fun _ t => Shipping d drop n count t ∧ ∀ k, (t.writer.pending k).size < n)
      (fun _ t => Refused t.store.calls) := by
  -- Each table that was polled has less than a batch; the size of features' own stays bounded, so
  -- that a flush ships no more than one batch.
  let I (front : List TableKind) (t : Writing (Logged σ)) : Prop := Shipping d drop n count t ∧
    (∀ k : FeatureKind, (t.writer.pending (.ofFeature k)).size ≤ n) ∧
    ∀ k ∈ front, (t.writer.pending k).size < n
  refine (Triple.forM (I := I) TableKind.all fun front k _ _ => ?_).weaken
    (fun _ h => ⟨h.1, h.2, nofun⟩) (fun _ _ h => ⟨h.1, fun k => h.2.2 k k.mem_all⟩) fun _ _ h => h
  refine Triple.bind (Q := fun _ => I (front ++ [k])) ?_ fun _ => Triple.pure fun _ h => h
  unfold Writing.flushIfDue
  refine Triple.get_bind fun s ⟨hs, hown, hfront⟩ => ?_
  have concat {t : Writing (Logged σ)} (hk : (t.writer.pending k).size < n)
      (ht : ∀ j, j ≠ k → t.writer.pending j = s.writer.pending j) :
      ∀ j ∈ front ++ [k], (t.writer.pending j).size < n := by
    intro j hj
    by_cases hjk : j = k
    · rw [hjk]; exact hk
    · rw [List.mem_append, List.mem_singleton] at hj
      rw [ht j hjk]
      exact hfront j (hj.resolve_right hjk)
  split
  · next hdue =>
    rw [Writer.isDue, decide_eq_true_eq, hs.batchSize] at hdue
    have exact (j : FeatureKind) (hj : k = .ofFeature j) : (s.writer.pending k).size = n :=
      Nat.le_antisymm (hj ▸ hown j) hdue
    refine Triple.bind (Q := fun _ => I (front ++ [k])) ?_ fun _ => Triple.pure fun _ h => h
    refine (hs.flush hdue exact).weaken (fun _ h => h) ?_ fun _ _ h => h
    rintro _ t ⟨ht, stored, hw⟩
    have kept (j : TableKind) (hj : j ≠ k) : t.writer.pending j = s.writer.pending j := by
      rw [hw, Writer.pending_settle_of_ne _ _ hj]
    have emptied : (t.writer.pending k).size = 0 := by rw [hw, Writer.pending_settle_self]
    refine ⟨ht, fun j => ?_, concat (by rw [emptied]; exact hn) kept⟩
    by_cases hj : TableKind.ofFeature j = k
    · rw [hj, emptied]; exact Nat.zero_le n
    · rw [kept _ hj]; exact hown j
  · next hdue =>
    rw [Writer.isDue, decide_eq_true_eq, hs.batchSize] at hdue
    refine Triple.pure ?_
    rintro _ rfl
    exact ⟨hs, hown, concat (Nat.lt_of_not_le hdue) fun _ _ => rfl⟩

end

/-! ## Between two items -/

theorem Shipping.of_eq {t : Writing (Logged σ)} (h : Shipping d drop n count s)
    (hw : t.writer = s.writer) (hs : t.store = s.store) : Shipping d drop n count t := by
  obtain ⟨hd, hb, hst, hc⟩ := h
  rw [← hs] at hst
  rw [← hw] at hd hb hc
  exact ⟨hd, hb, hst, hc⟩

theorem Writer.size_pending_enqueueAll (w : Writer) (rows : List Placed) (k : TableKind) :
    ((rows.foldl enqueue w).pending k).size = (w.pending k).size + (rowsFor k rows).length := by
  rw [← Array.length_toList, pending_enqueueAll, List.length_append, Array.length_toList]

theorem Shipping.enqueueAll {count' : FeatureKind → Nat} (h : Shipping d drop n count s)
    {rows : List Placed} (hr : ∀ k, count' k = count k + (rowsFor (.ofFeature k) rows).length)
    (lines : Journal) :
    Shipping d drop n count' { s with writer := rows.foldl Writer.enqueue s.writer, lines } := by
  obtain ⟨hd, hb⟩ := Load.enqueueAll_setup s.writer rows
  refine ⟨hd.trans h.dataset, hb.trans h.batchSize, h.stored, fun k => ?_⟩
  rw [hr k, h.counted k, Writer.totals_enqueueAll, Writer.size_pending_enqueueAll, Nat.add_assoc]

/-- A load between two items. For features' own tables less than a batch waits, and for the others
where no feature is open. -/
structure Resting (d : Dataset) (drop : Bool) (n : Nat) (l : Load (Logged σ) ω) : Prop where
  shipping : Shipping d drop n l.assembler.counts.ofKind l.writing
  own : ∀ k : FeatureKind, (l.writing.writer.pending (.ofFeature k)).size < n
  rest : l.assembler.openFeature = none → ∀ k, (l.writing.writer.pending k).size < n

/-- A load that closed a feature and has not polled its writer yet. -/
structure Unpolled (d : Dataset) (drop : Bool) (n : Nat) (l : Load (Logged σ) ω) : Prop where
  shipping : Shipping d drop n l.assembler.counts.ofKind l.writing
  own : ∀ k : FeatureKind, (l.writing.writer.pending (.ofFeature k)).size ≤ n
  closed : l.assembler.openFeature = none

variable {calls : List Call}

def RestingWith (d : Dataset) (drop : Bool) (n : Nat) (calls : List Call)
    (l : Load (Logged σ) ω) : Prop :=
  Resting d drop n l ∧ l.writing.store.calls = calls

theorem RestingWith.still (l l' : Load (Logged σ) ω) (h : RestingWith d drop n calls l)
    (hs : Load.Still l l') : RestingWith d drop n calls l' := by
  obtain ⟨⟨hship, hown, hrest⟩, hc⟩ := h
  refine ⟨⟨?_, by rw [hs.writer]; exact hown, by rw [hs.assembler, hs.writer]; exact hrest⟩,
    by rw [hs.store]; exact hc⟩
  rw [hs.assembler]
  exact hship.of_eq hs.writer hs.store

theorem assemble_resting (e : Event) :
    Triple (RestingWith d drop n calls) (Load.assemble e : LoadM (Logged σ) ω Change)
      (fun change l => change.closes = e.endsFeature ∧
        if change.closes then Unpolled d drop n l else Resting d drop n l)
      (fun _ l => l.writing.store.calls = calls) := by
  refine Load.assemble_ends (fun l f h _ => h.2) fun l s lines ⟨h, hc⟩ hs => ?_
  have ht := Assembler.takes_of_step hs
  refine ⟨ht.change_closes, ?_⟩
  have hship := h.shipping.enqueueAll ht.ofKind_eq_length lines
  have hle := ht.length_rowsFor_le
  cases hcl : s.change.closes with
  | true =>
    rw [if_pos rfl]
    refine ⟨hship, fun k => ?_, ht.closed hcl⟩
    rw [Writer.size_pending_enqueueAll]
    have hk := hle k
    have hown := h.own k
    rw [hcl, if_pos rfl] at hk
    omega
  | false =>
    rw [if_neg nofun]
    refine ⟨hship, fun k => ?_, fun hn k => ?_⟩
    · rw [Writer.size_pending_enqueueAll]
      have hk := hle k
      have hown := h.own k
      rw [hcl, if_neg nofun] at hk
      omega
    · -- While no feature is open no row is made.
      obtain ⟨hopen, hrows⟩ := ht.quiet hcl hn
      rw [hrows]
      exact h.rest hopen k

section

variable [Store σ] [Watcher ω]

theorem passEvent_resting (hn : 0 < n) (gauge : Gauge) (drawn : Nat) (e : Event) :
    Triple (RestingWith d drop n calls) (Load.passEvent gauge drawn e : LoadM (Logged σ) ω Unit)
      (fun _ l => Resting d drop n l ∧ (e.endsFeature = true → l.assembler.openFeature = none))
      (fun _ l => l.writing.store.calls = calls ∨ Refused l.writing.store.calls) := by
  let Rested (l : Load (Logged σ) ω) : Prop :=
    Resting d drop n l ∧ (e.endsFeature = true → l.assembler.openFeature = none)
  have still (l l' : Load (Logged σ) ω) (h : Rested l) (hs : Load.Still l l') : Rested l' :=
    ⟨(RestingWith.still l l' ⟨h.1, rfl⟩ hs).1, by rw [hs.assembler]; exact h.2⟩
  refine Load.passEvent_spec (Q := Rested) ((assemble_resting e).weaken (fun _ h => h)
    (fun _ _ h => h) fun _ _ h => Or.inl h) (fun k => ?_) fun change l hc h => ?_
  · refine Triple.bind (Q := fun _ => Rested) (Load.byWriter_spec fun l ⟨_, h⟩ => ?_) fun _ =>
      Load.count_still still gauge drawn
    refine (Shipping.poll hn l.writing ⟨h.shipping, h.own⟩).imp (fun _ t ht => ?_)
      fun _ _ ht => Or.inr ht
    exact ⟨⟨ht.1, fun k => ht.2 _, fun _ => ht.2⟩, fun _ => h.closed⟩
  · rw [hc, if_neg nofun] at h
    exact ⟨h.2, fun he => by rw [← h.1] at he; cases he⟩

theorem take_resting (hn : 0 < n) (gauge : Gauge) (i : Item) :
    Triple (RestingWith d drop n calls) (Load.take gauge i : LoadM (Logged σ) ω Unit)
      (fun _ l => Resting d drop n l ∧ (i.closes = true → l.assembler.openFeature = none))
      (fun _ l => l.writing.store.calls = calls ∨ Refused l.writing.store.calls) := by
  unfold Load.take
  split
  · exact Triple.throw fun _ h => Or.inl h.2
  · next e hi =>
    have he : i.closes = e.endsFeature := by rw [Item.closes, hi]
    rw [he]
    refine Load.takeEvent_still RestingWith.still (Load.cancel_quits ?_)
      (passEvent_resting hn gauge i.drawn e)
    rintro _ ⟨l, lines, h, rfl⟩
    exact Or.inl h.2

/-! ## While the tables are made -/

structure Unfilled (d : Dataset) (n : Nat) (l : Load (Logged σ) ω) : Prop where
  writer : l.writing.writer = { dataset := d, batchSize := n }
  assembler : l.assembler = {}
  unstored : ∀ c ∈ l.writing.store.calls, c.request.method ≠ .insert

omit [Store σ] [Watcher ω] in
theorem Unfilled.resting {l : Load (Logged σ) ω} (h : Unfilled d n l) (hn : 0 < n)
    (hp : Passed (script d drop []) l.writing.store.calls) : Resting d drop n l := by
  obtain ⟨hw, ha, -⟩ := h
  have empty (k : TableKind) : (l.writing.writer.pending k).size = 0 := by
    rw [hw, Writer.pending, PerTable.get_const]
    rfl
  refine ⟨⟨by rw [hw], by rw [hw], ⟨[], nofun, hp⟩, fun k => ?_⟩, fun k => ?_, fun _ k => ?_⟩
  · rw [empty, hw, ha, PerTable.get_const]
    cases k <;> rfl
  all_goals rw [empty]; exact hn

omit [Watcher ω] in
theorem openTables_unfilled (drop : Bool) :
    Triple (Unfilled d n) (Load.openTables drop : LoadM (Logged σ) ω Unit) (fun _ => Unfilled d n)
      (fun _ => Unfilled d n) := by
  refine Load.openTables_keeps (fun r fault hr => Load.byWriter_spec fun l h => ?_) drop
  have concat {t : Writing (Logged σ)} {c : Call} (hc : c.request = r)
      (hw : t.writer = l.writing.writer) (ht : t.store.calls = l.writing.store.calls ++ [c]) :
      Unfilled d n { l with writing := t } := by
    refine ⟨hw.trans h.writer, h.assembler, fun x hx => ?_⟩
    rw [ht, List.mem_append, List.mem_singleton] at hx
    rcases hx with hx | rfl
    · exact h.unstored x hx
    · rw [hc]; exact hr
  exact (Logged.ask_spec r fault l.writing l.writing rfl).imp (fun _ t ht => concat rfl ht.1 ht.2)
    fun _ t ⟨_, _, hw, ht⟩ => concat rfl hw ht

theorem upTo_nil_unfilled (drop : Bool) (gauge : Gauge) :
    Triple (Unfilled d n) (Load.upTo drop gauge [] : LoadM (Logged σ) ω Unit)
      (fun _ => Unfilled d n) (fun _ => Unfilled d n) := by
  refine Triple.bind (openTables_unfilled drop) fun _ => Triple.bind (Q := fun _ => Unfilled d n)
    (Load.enter_still ?_) fun _ => Triple.pure fun _ h => h
  intro l l' ⟨hw, ha, hu⟩ hs
  exact ⟨by rw [hs.writer]; exact hw, by rw [hs.assembler]; exact ha, by rw [hs.store]; exact hu⟩

theorem upTo_nil_resting (hn : 0 < n) (drop : Bool) (gauge : Gauge) :
    Triple (fun l => Unfilled d n l ∧ l.writing.store.calls = [])
      (Load.upTo drop gauge [] : LoadM (Logged σ) ω Unit) (fun _ => Resting d drop n)
      (fun _ => Unfilled d n) := by
  intro l ⟨h, hc⟩
  have started : Going d [] l.writing :=
    ⟨by rw [h.writer], by rw [h.writer]; exact hn, by rw [hc]; exact ⟨rfl, nofun⟩⟩
  have going : Triple (fun l : Load (Logged σ) ω => Going d [] l.writing) (Load.upTo drop gauge [])
      (fun _ l => Going d (script d drop []) l.writing) (fun _ _ => True) := by
    refine Triple.bind (openTables_going.weaken (fun _ h => h) (fun _ _ h => h)
      fun _ _ _ => trivial) fun _ => Triple.bind (Q := fun _ l => Going d (script d drop []) l.writing)
        (Load.enter_still ?_) fun _ => Triple.pure fun _ h => h
    intro l l' ⟨hd, hb, hp⟩ hs
    exact ⟨by rw [hs.writer]; exact hd, by rw [hs.writer]; exact hb, by rw [hs.store]; exact hp⟩
  exact ((upTo_nil_unfilled drop gauge l h).and (going l started)).imp
    (fun _ _ h => h.1.resting hn h.2.passed) fun _ _ h => h.1

theorem upTo_resting (hn : 0 < n) (drop : Bool) (gauge : Gauge) (items : List Item) :
    Triple (fun l => Unfilled d n l ∧ l.writing.store.calls = [])
      (Load.upTo drop gauge items : LoadM (Logged σ) ω Unit)
      (fun _ l => Resting d drop n l ∧
        (items.getLast?.any Item.closes = true → l.assembler.openFeature = none))
      (fun _ _ => True) := by
  refine Load.upTo_spec (I := fun items l => Resting d drop n l ∧
    (items.getLast?.any Item.closes = true → l.assembler.openFeature = none)) ?_ fun before i => ?_
  · exact (upTo_nil_resting hn drop gauge).weaken (fun _ h => h) (fun _ _ h => ⟨h, nofun⟩)
      fun _ _ _ => trivial
  · rw [List.getLast?_concat]
    refine Triple.of_state fun l h => ?_
    have taken : Triple (RestingWith d drop n l.writing.store.calls)
      (Load.take gauge i : LoadM (Logged σ) ω Unit) _ _ := take_resting hn gauge i
    refine taken.weaken ?_ (fun _ _ h => h) fun _ _ _ => trivial
    rintro _ rfl
    exact ⟨h.1, rfl⟩

end

end MapTables
