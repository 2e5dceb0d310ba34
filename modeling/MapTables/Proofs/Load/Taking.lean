import MapTables.Proofs.Load.Parts
import MapTables.Proofs.Load.Underway

/-!
# Taking a document

Each item takes the load one step further or ends it. So does the end of the document.
-/

namespace MapTables

variable {σ ω : Type} {view : σ → Memory} {refusing : Prop} {d : Dataset} [Watcher ω] {w : ω}
  {items before after : List Item}

theorem isCancelled_spec : Triple (Taken view refusing d w items before) Load.isCancelled
    (fun stop l => Taken view refusing d w items before l ∧ (stop = true → Watcher.MayStop w))
    (Ended view refusing d w items) := by
  refine Triple.modifyGet fun l hl => ⟨?_, fun hs => ⟨l.watcher, hl.watched, hs⟩⟩
  exact hl.of_eq rfl (.asked hl.watched) rfl rfl

theorem cancel_spec : Triple (fun l => Taken view refusing d w items before l ∧ Watcher.MayStop w)
    (Load.cancel : LoadM σ ω Unit) (fun _ _ => False) (Ended view refusing d w items) := by
  refine Load.cancel_quits ?_
  rintro _ ⟨l, lines, ⟨⟨R, done, h⟩, hs⟩, rfl⟩
  have ended : Ended view refusing d w items .cancelled l := h.ended (Or.inr (Or.inr hs))
  exact ended.of_eq rfl rfl

/-! ## Items -/

theorem Underway.step {R : List Placed} {done : TableKind → List Row} {l : Load σ ω} {i : Item}
    {e : Event} {s : Step} (h : Underway view refusing d w items before R done l)
    (hi : i.what = .ok e) (hs : l.assembler.step e = .ok s) (lines : Journal) :
    Underway view refusing d w items (before ++ [i]) (R ++ s.rows) done { l with
      assembler := s.next
      writing := { l.writing with
        writer := s.rows.foldl Writer.enqueue l.writing.writer, lines } } := by
  refine ⟨Assembler.takeAll_concat h.taken hi hs, h.cut.mono ?_, ?_, h.watched⟩
  · have := (Assembler.takes_of_step hs).features_eq
    simp only
    omega
  · simp only [rowsFor_append]
    exact (h.balanced.enqueueAll s.rows).of_eq rfl rfl

theorem assemble_spec {i : Item} {e : Event} (hl : items = before ++ i :: after)
    (hi : i.what = .ok e) :
    Triple (Taken view refusing d w items before) (Load.assemble e)
      (fun change l => Taken view refusing d w items (before ++ [i]) l ∧
        (change.closes = true → l.assembler.openFeature = none))
      (Ended view refusing d w items) := by
  refine Load.assemble_ends ?_ ?_
  · rintro l f ⟨R, done, h⟩ hs
    refine h.ended (Or.inl ?_)
    rw [hl, assembled, Assembler.takeAll_of_malformed h.taken hi hs]
    rfl
  · rintro l s lines ⟨R, done, h⟩ hs
    exact ⟨⟨_, done, h.step hi hs lines⟩, (Assembler.takes_of_step hs).closed⟩

theorem count_spec (gauge : Gauge) (drawn : Nat) :
    Triple (Taken view refusing d w items before) (Load.count gauge drawn)
      (fun _ => Taken view refusing d w items before) (Ended view refusing d w items) := by
  refine Triple.get_bind fun l hl => ?_
  refine Triple.bind (Q := fun _ => Taken view refusing d w items before)
    (Load.sayAll_spec ?_) fun _ => Triple.modify fun l' hl' => ?_
  · rintro _ rfl lines; exact hl.of_eq rfl hl.watched rfl rfl
  · exact hl'.of_eq rfl (hl.watched.sampled l.monitor gauge drawn) rfl rfl

variable [Store σ]

theorem Underway.poll (dr : Drives view refusing) {R : List Placed} {done : TableKind → List Row}
    {l : Load σ ω} (h : Underway view refusing d w items before R done l)
    (hl : items = before ++ after) (hn : l.assembler.openFeature = none) :
    Ending (fun _ t => Taken view refusing d w items before { l with writing := t })
      (fun f t => Ended view refusing d w items f { l with writing := t })
      (Writing.poll l.writing) := by
  have hcut : AtClosings (eventsOf items) l.assembler.counts.features fun k => rowsFor k R := by
    rw [hl]
    exact atClosings_of_takeAll h.taken hn
  refine (Balanced.poll dr _ h.balanced).imp ?_ ?_
  · rintro _ t ⟨done', hb, -, hbal⟩
    exact ⟨R, done', h.taken, h.cut.between hcut hb, hbal, h.watched⟩
  · rintro f t ⟨hr, done', hb, hh⟩
    exact ⟨⟨done', h.cut.between hcut hb, hh⟩, Or.inr (Or.inl hr)⟩

theorem takeEvent_spec (dr : Drives view refusing) {i : Item} {e : Event} (gauge : Gauge)
    (hl : items = before ++ i :: after) (hi : i.what = .ok e) :
    Triple (Taken view refusing d w items before) (Load.takeEvent gauge i.drawn e)
      (fun _ => Taken view refusing d w items (before ++ [i]))
      (Ended view refusing d w items) := by
  -- The event is taken once the watcher has let it pass.
  have passed : Triple (Taken view refusing d w items before) (Load.passEvent gauge i.drawn e)
      (fun _ => Taken view refusing d w items (before ++ [i])) (Ended view refusing d w items) := by
    refine Load.passEvent_spec (assemble_spec hl hi) (fun k => ?_) fun _ _ _ h => h.1
    refine Triple.bind (Q := fun _ => Taken view refusing d w items (before ++ [i]))
      (Load.byWriter_spec ?_) fun _ => count_spec gauge i.drawn
    rintro l ⟨⟨R, done, h⟩, hn⟩
    exact h.poll dr (by simpa using hl) (hn rfl)
  unfold Load.takeEvent
  simp only
  split
  · refine Triple.bind isCancelled_spec fun stop => ?_
    cases stop with
    | true =>
      refine Triple.bind (Q := fun _ _ => False) ?_ fun _ _ h => h.elim
      exact cancel_spec.weaken (fun l h => ⟨h.1, h.2 rfl⟩) (fun _ _ h => h) fun _ _ h => h
    | false => exact passed.weaken (fun _ h => h.1) (fun _ _ h => h) fun _ _ h => h
  · exact passed

theorem take_spec (dr : Drives view refusing) {i : Item} (gauge : Gauge)
    (hl : items = before ++ i :: after) :
    Triple (Taken view refusing d w items before) (Load.take gauge i)
      (fun _ => Taken view refusing d w items (before ++ [i]))
      (Ended view refusing d w items) := by
  unfold Load.take
  split
  · next f hi =>
    refine Triple.throw ?_
    rintro l ⟨R, done, h⟩
    refine h.ended (Or.inl ?_)
    rw [hl, assembled, Assembler.takeAll_of_unreadable h.taken hi]
    rfl
  · next e hi => exact takeEvent_spec dr gauge hl hi

/-! ## The end of the document -/

/-- All that was assembled is stored. -/
structure Drained (view : σ → Memory) (refusing : Prop) (d : Dataset) (w : ω) (items : List Item)
    (counts : Counts) (R : List Placed) (l : Load σ ω) : Prop where
  plain : assembled items = .ok (counts, R)
  cut : AtClosings (eventsOf items) l.assembler.counts.features fun k => rowsFor k R
  balanced : Balanced view refusing d (rowsFor · R) (rowsFor · R) l.writing

theorem drain_spec (dr : Drives view refusing) :
    Triple (Taken view refusing d w items items) (Load.drain : LoadM σ ω Counts)
      (fun counts l => ∃ R, Drained view refusing d w items counts R l)
      (Ended view refusing d w items) := by
  unfold Load.drain
  refine Triple.get_bind fun l ht => ?_
  obtain ⟨R, done, h⟩ := ht
  split
  · next f hf =>
    refine Triple.throw ?_
    rintro _ rfl
    refine h.ended (Or.inl ?_)
    rw [assembled, h.taken]
    simp only [bind, Except.bind, hf]
  · next counts hf =>
    have hn := (Assembler.finish_eq_ok.mp hf).1
    have hplain : assembled items = .ok (counts, R) :=
      assembled_eq_ok.mpr ⟨l.assembler, h.taken, Assembler.finish_eq_ok.mp hf⟩
    have hcut : AtClosings (eventsOf (items ++ [])) _ _ := atClosings_of_takeAll h.taken hn
    rw [List.append_nil] at hcut
    refine Triple.bind (Q := fun _ l' => l'.assembler = l.assembler ∧
      Balanced view refusing d (rowsFor · R) done l'.writing) (Load.enter_spec ?_) fun _ => ?_
    · rintro _ rfl lines; exact ⟨rfl, h.balanced.of_eq rfl rfl⟩
    refine Triple.bind (Q := fun _ l' => l'.assembler = l.assembler ∧
      Balanced view refusing d (rowsFor · R) (rowsFor · R) l'.writing)
      (Load.byWriter_spec ?_) fun _ => ?_
    · rintro l' ⟨ha, hbal⟩
      refine (Balanced.flushAll dr _ hbal).imp (fun _ t ht => ⟨ha, ht⟩) ?_
      rintro f t ⟨hr, done', hb, hh⟩
      refine ⟨⟨done', ?_, hh⟩, Or.inr (Or.inl hr)⟩
      simp only [ha]
      exact h.cut.between hcut hb
    refine Triple.bind (Q := fun _ l' => l'.assembler = l.assembler ∧
      Balanced view refusing d (rowsFor · R) (rowsFor · R) l'.writing) ?_ fun _ => Triple.pure ?_
    · refine Triple.get_bind fun l' hl' => Triple.bind (Load.sayAll_spec ?_) fun _ =>
        Triple.modify fun _ h => h
      rintro _ rfl lines; exact ⟨hl'.1, hl'.2.of_eq rfl rfl⟩
    · rintro l' ⟨ha, hbal⟩
      exact ⟨R, hplain, by rw [ha]; exact hcut, hbal⟩

theorem consume_spec (dr : Drives view refusing) (gauge : Gauge) :
    Triple (Taken view refusing d w items []) (Load.consume gauge items : LoadM σ ω Counts)
      (fun counts l => ∃ R, Drained view refusing d w items counts R l)
      (Ended view refusing d w items) := by
  unfold Load.consume
  refine Triple.bind (Q := fun _ => Taken view refusing d w items []) (Load.enter_spec ?_)
    fun _ => ?_
  · exact fun l h lines => h.of_eq rfl h.watched rfl rfl
  · exact Triple.bind (Triple.forM items fun before i after hl => take_spec dr gauge hl)
      fun _ => drain_spec dr

end MapTables
