import MapTables.Load.Run
import MapTables.Proofs.Assembly.Dispatch

/-!
# Parts of a load

The writer's part of a load changes nothing else of it. Lines and phases are only noted.
-/

namespace MapTables.Load

variable {σ ω α : Type} {P : Load σ ω → Prop} {E : LoadFault → Load σ ω → Prop}

theorem byWriter_spec {x : WritingM σ α} {Q : α → Load σ ω → Prop}
    (h : ∀ l, P l → Ending (fun a t => Q a { l with writing := t })
      (fun f t => E f { l with writing := t }) (x l.writing)) :
    Triple P (byWriter x) Q E := by
  rintro ⟨writing, monitor, watcher, assembler, phase⟩ hl
  have hx := h _ hl
  unfold byWriter
  rcases hxs : (x writing : Except LoadFault α × Writing σ) with ⟨f | a, t⟩
  · simp only [hxs, Ending] at hx ⊢; exact hx
  · simp only [hxs, Ending] at hx ⊢; exact hx

theorem byWriter_keeps (hP : ∀ l writing, P l → P { l with writing }) (x : WritingM σ α) :
    Triple P (byWriter x) (fun _ => P) (fun _ => P) :=
  byWriter_spec fun l hl => by
    rcases (x l.writing : Except LoadFault α × Writing σ) with ⟨_ | _, t⟩ <;> exact hP l t hl

theorem assemble_eq (e : Event) : (assemble e : LoadM σ ω Change) = do
    match (← get).assembler.step e with
    | .error fault => throw (.malformed fault)
    | .ok step =>
      sayAll step.note.toArray
      modify fun l => { l with assembler := step.next }
      byWriter (Writing.enqueue step.rows)
      return step.change := by
  funext l
  obtain ⟨⟨writer, store, lines⟩, monitor, watcher, assembler, phase⟩ := l
  unfold assemble
  simp only [Assembling.dispatch_run]
  change _ = (match assembler.step e with
    | .error fault => throw (.malformed fault)
    | .ok step => _ : LoadM σ ω Change) _
  cases assembler.step e with
  | error fault => rfl
  | ok step => rfl

theorem sayAll_spec {lines : Journal} {Q : Load σ ω → Prop}
    (h : ∀ l, P l → ∀ lines, Q { l with writing := { l.writing with lines } }) :
    Triple P (sayAll lines) (fun _ => Q) E :=
  byWriter_spec fun l hl => h l hl _

theorem enter_spec {phase : Phase} {Q : Load σ ω → Prop}
    (h : ∀ l, P l → ∀ lines, Q { l with writing := { l.writing with lines }, phase }) :
    Triple P (enter phase) (fun _ => Q) E := by
  refine Triple.get_bind fun l hl => ?_
  refine Triple.bind (Q := fun _ l' => Q { l' with phase }) (sayAll_spec ?_) fun _ => ?_
  · rintro _ rfl lines; exact h _ hl lines
  · exact Triple.modify fun _ h => h

theorem attempt_spec {x : LoadM σ ω α} {S : Except LoadFault α → Load σ ω → Prop}
    (h : Triple P x (fun a => S (.ok a)) (fun f => S (.error f))) : Triple P (attempt x) S E := by
  intro l hl
  have hx := h l hl
  unfold attempt
  rcases hxs : (x l : Except LoadFault α × Load σ ω) with ⟨f | a, t⟩
  · rw [hxs] at hx; exact hx
  · rw [hxs] at hx; exact hx

theorem assemble_ends {e : Event} {Q : Change → Load σ ω → Prop}
    (refused : ∀ l f, P l → l.assembler.step e = .error f → E (.malformed f) l)
    (accepted : ∀ l s lines, P l → l.assembler.step e = .ok s → Q s.change { l with
      writing := { l.writing with writer := s.rows.foldl Writer.enqueue l.writing.writer, lines }
      assembler := s.next }) : Triple P (assemble e) Q E := by
  rw [assemble_eq]
  refine Triple.get_bind fun l hl => ?_
  split
  · next f hs =>
    refine Triple.throw ?_
    rintro _ rfl
    exact refused _ f hl hs
  · next s hs =>
    refine Triple.bind (Q := fun _ l' => ∃ lines, l' = { l with
      writing := { l.writing with lines } }) (sayAll_spec ?_) fun _ => ?_
    · rintro _ rfl lines
      exact ⟨lines, rfl⟩
    refine Triple.bind (Q := fun _ l' => ∃ lines, l' = { l with
      writing := { l.writing with lines }
      assembler := s.next }) (Triple.modify ?_) fun _ => ?_
    · rintro _ ⟨lines, rfl⟩
      exact ⟨lines, rfl⟩
    refine Triple.bind (Q := fun _ => Q s.change) (byWriter_spec ?_) fun _ =>
      Triple.pure fun _ h => h
    rintro _ ⟨lines, rfl⟩
    exact accepted l s lines hl hs

/-! ## Parts of an event -/

/-- What is done with an event that the watcher lets pass. -/
def passEvent [Store σ] [Watcher ω] (gauge : Gauge) (drawn : Nat) (e : Event) : LoadM σ ω Unit := do
  match ← assemble e with
  | .closed _ =>
    byWriter Writing.poll
    count gauge drawn
  | _ => return ()

/-- Only where a feature was closed the writer is polled and the feature counted. -/
theorem passEvent_spec [Store σ] [Watcher ω] {Q : Load σ ω → Prop} {S : Change → Load σ ω → Prop}
    {gauge : Gauge} {drawn : Nat} {e : Event} (assembled : Triple P (assemble e) S E)
    (closed : ∀ k, Triple (S (.closed k)) (byWriter Writing.poll >>= fun _ => count gauge drawn)
      (fun _ => Q) E)
    (others : ∀ change l, change.closes = false → S change l → Q l) :
    Triple P (passEvent gauge drawn e) (fun _ => Q) E := by
  refine Triple.bind assembled fun change => ?_
  cases change with
  | closed k => exact closed k
  | _ => exact Triple.pure fun l h => others _ l rfl h

/-- A load with `P` that forgot the rows that waited. -/
def Forgetful (P : Load σ ω → Prop) (l : Load σ ω) : Prop :=
  ∃ l' lines, P l' ∧ l = { l' with
    writing := { l'.writing with writer := l'.writing.writer.discard, lines } }

theorem cancel_quits (hE : ∀ l, Forgetful P l → E .cancelled l) :
    Triple P cancel (fun _ _ => False) E := by
  unfold cancel
  refine Triple.bind (Q := fun _ => Forgetful P) (byWriter_spec ?_) fun n => ?_
  · exact fun l h => ⟨l, _, h, rfl⟩
  refine Triple.bind (Q := fun _ => Forgetful P) (sayAll_spec ?_) fun _ => Triple.throw hE
  rintro _ ⟨l, _, h, rfl⟩ lines
  exact ⟨l, lines, h, rfl⟩

theorem takeEvent_polled [Store σ] [Watcher ω] {Q : Unit → Load σ ω → Prop} {gauge : Gauge}
    {drawn : Nat} {e : Event} (polled : Triple P isCancelled (fun _ => P) E)
    (hcancel : Triple P cancel (fun _ _ => False) E)
    (passed : Triple P (passEvent gauge drawn e) Q E) : Triple P (takeEvent gauge drawn e) Q E := by
  unfold takeEvent
  simp only
  split
  · refine Triple.bind polled fun stop => ?_
    cases stop with
    | true => exact Triple.bind hcancel fun _ _ h => h.elim
    | false => exact passed
  · exact passed

/-! ## Parts that only note something -/

/-- The writer, its store and the assembler are as they were. -/
structure Still (l l' : Load σ ω) : Prop where
  writer : l'.writing.writer = l.writing.writer
  store : l'.writing.store = l.writing.store
  assembler : l'.assembler = l.assembler

section

variable (hP : ∀ l l', P l → Still l l' → P l')
include hP

theorem enter_still {phase : Phase} : Triple P (enter phase) (fun _ => P) E :=
  enter_spec fun l h _ => hP l _ h ⟨rfl, rfl, rfl⟩

variable [Watcher ω]

theorem isCancelled_still : Triple P isCancelled (fun _ => P) E :=
  Triple.modifyGet fun l h => hP l _ h ⟨rfl, rfl, rfl⟩

theorem takeEvent_still [Store σ] {Q : Unit → Load σ ω → Prop} {gauge : Gauge} {drawn : Nat}
    {e : Event} (hcancel : Triple P cancel (fun _ _ => False) E)
    (passed : Triple P (passEvent gauge drawn e) Q E) : Triple P (takeEvent gauge drawn e) Q E :=
  takeEvent_polled (isCancelled_still hP) hcancel passed

theorem count_still (gauge : Gauge) (drawn : Nat) :
    Triple P (count gauge drawn) (fun _ => P) E := by
  refine Triple.get_bind fun l hl => ?_
  refine Triple.bind (Q := fun _ => P) (sayAll_spec ?_) fun _ => Triple.modify ?_
  · rintro l rfl lines; exact hP l _ hl ⟨rfl, rfl, rfl⟩
  · exact fun l h => hP l _ h ⟨rfl, rfl, rfl⟩

theorem countLast_still : Triple P (countLast : LoadM σ ω Unit) (fun _ => P) E := by
  refine Triple.get_bind fun l hl => ?_
  refine Triple.bind (Q := fun _ => P) (sayAll_spec ?_) fun _ => Triple.modify ?_
  · rintro l rfl lines; exact hP l _ hl ⟨rfl, rfl, rfl⟩
  · exact fun l h => hP l _ h ⟨rfl, rfl, rfl⟩

end

/-! ## Parts that leave the store alone -/

/-- Nothing was asked of the store, and the writer is set up as it was. -/
structure Apart (l l' : Load σ ω) : Prop where
  store : l'.writing.store = l.writing.store
  dataset : l'.writing.writer.dataset = l.writing.writer.dataset
  batchSize : l'.writing.writer.batchSize = l.writing.writer.batchSize

theorem Still.apart {l l' : Load σ ω} (h : Still l l') : Apart l l' :=
  ⟨h.store, congrArg Writer.dataset h.writer, congrArg Writer.batchSize h.writer⟩

theorem enqueueAll_setup (w : Writer) (rows : List Placed) :
    (rows.foldl Writer.enqueue w).dataset = w.dataset ∧
      (rows.foldl Writer.enqueue w).batchSize = w.batchSize := by
  induction rows generalizing w with
  | nil => exact ⟨rfl, rfl⟩
  | cons r rows ih => exact ih _

section

variable (hP : ∀ l l', P l → Apart l l' → P l') (hE : ∀ f l, P l → E f l)
include hP

theorem of_apart : ∀ l l', P l → Still l l' → P l' := fun l l' h hs => hP l l' h hs.apart

include hE in
theorem assemble_apart (e : Event) : Triple P (assemble e) (fun _ => P) E := by
  refine assemble_ends (fun l f h _ => hE _ l h) fun l s lines h _ => ?_
  have hw := enqueueAll_setup l.writing.writer s.rows
  exact hP l _ h ⟨rfl, hw.1, hw.2⟩

variable [Watcher ω]

include hE in
theorem consume_apart [Store σ] (gauge : Gauge) (items : List Item)
    (hpoll : Triple P (byWriter Writing.poll : LoadM σ ω Unit) (fun _ => P) E)
    (hflush : Triple P (byWriter Writing.flushAll : LoadM σ ω Unit) (fun _ => P) E) :
    Triple P (consume gauge items) (fun _ => P) E := by
  have passed (drawn : Nat) (e : Event) : Triple P (passEvent gauge drawn e) (fun _ => P) E :=
    passEvent_spec (assemble_apart hP hE e) (fun _ => Triple.bind hpoll fun _ =>
      count_still (of_apart hP) gauge drawn) fun _ _ _ h => h
  have cancelled : Triple P (cancel : LoadM σ ω Unit) (fun _ _ => False) E :=
    cancel_quits fun _ ⟨l, _, h, he⟩ => hE _ _ (hP l _ h (he ▸ ⟨rfl, rfl, rfl⟩))
  have event (drawn : Nat) (e : Event) : Triple P (takeEvent gauge drawn e) (fun _ => P) E :=
    takeEvent_still (of_apart hP) cancelled (passed drawn e)
  unfold consume
  refine Triple.bind (enter_still (of_apart hP)) fun _ => ?_
  refine Triple.bind (Triple.forM (I := fun _ => P) items fun _ i _ _ => ?_) fun _ => ?_
  · unfold take
    split
    · exact Triple.throw fun l h => hE _ l h
    · exact event i.drawn _
  · unfold drain
    refine Triple.get_bind fun l hl => ?_
    split
    · exact Triple.throw fun _ h => hE _ _ (h ▸ hl)
    · refine Triple.bind (Q := fun _ => P) ?_ fun _ => Triple.bind hflush fun _ => ?_
      · exact (enter_still (of_apart hP)).weaken (fun _ h => h ▸ hl) (fun _ _ h => h) fun _ _ h => h
      · exact Triple.bind (countLast_still (of_apart hP)) fun _ => Triple.pure fun _ h => h

end

end MapTables.Load
