import MapTables.Proofs.Load.Course
import MapTables.Proofs.Load.Overheard

/-!
# The first fault of a load

Each load takes a course, and what it reports is how that ends.
-/

namespace MapTables

open Stage

variable {σ ω : Type} {drop : Bool} {start s t : Stage} {m : Moment} {f : LoadFault}
  {calls : List Call} {answers : List Bool}

/-- The load has come to the stage with these calls and answers. -/
def Led (drop : Bool) (start s : Stage) (calls : List Call) (answers : List Bool) : Prop :=
  ∃ trace, start.Leads drop trace s ∧ callsOf trace = calls ∧ answersOf trace = answers

/-- With the last of these calls or answers the load has failed. -/
def Failing (drop : Bool) (start : Stage) (f : LoadFault) (calls : List Call)
    (answers : List Bool) : Prop :=
  ∃ trace s m, start.Leads drop trace s ∧ s.Fails m f ∧ s.ending = [.rollback, .release] ∧
    callsOf (trace ++ [m]) = calls ∧ answersOf (trace ++ [m]) = answers

theorem Led.pass (h : Led drop start s calls answers) (passes : s.Passes drop m t) :
    Led drop start t (calls ++ m.call?.toList) (answers ++ m.answer?.toList) := by
  obtain ⟨trace, leads, rfl, rfl⟩ := h
  refine ⟨trace ++ [m], .pass leads passes, ?_, ?_⟩
  · rw [callsOf_append]
    cases m <;> rfl
  · rw [answersOf_append]
    cases m <;> rfl

theorem Led.fail (h : Led drop start s calls answers) (fails : s.Fails m f)
    (hs : s.ending = [.rollback, .release]) :
    Failing drop start f (calls ++ m.call?.toList) (answers ++ m.answer?.toList) := by
  obtain ⟨trace, leads, rfl, rfl⟩ := h
  refine ⟨trace, s, m, leads, fails, hs, ?_, ?_⟩
  · rw [callsOf_append]
    cases m <;> rfl
  · rw [answersOf_append]
    cases m <;> rfl

section

variable {c : Call} {after : List Call}

theorem Led.pass_call (h : Led drop start s calls answers) (hc : after = calls ++ [c])
    (passes : s.Passes drop (.asked c) t) : Led drop start t after answers := by
  have := h.pass passes
  simpa only [Moment.call?, Moment.answer?, Option.toList, List.append_nil, ← hc] using this

theorem Led.fail_call (h : Led drop start s calls answers) (hc : after = calls ++ [c])
    (fails : s.Fails (.asked c) f) (hs : s.ending = [.rollback, .release]) :
    Failing drop start f after answers := by
  have := h.fail fails hs
  simpa only [Moment.call?, Moment.answer?, Option.toList, List.append_nil, ← hc] using this

end

theorem Led.pass_unseen (h : Led drop start s calls answers) (passes : s.Passes drop m t)
    (hc : m.call? = none) (ha : m.answer? = none) : Led drop start t calls answers := by
  have := h.pass passes
  rw [hc, ha] at this
  simpa only [Option.toList_none, List.append_nil] using this

theorem Led.fail_unseen (h : Led drop start s calls answers) (fails : s.Fails m f)
    (hs : s.ending = [.rollback, .release]) (hc : m.call? = none) (ha : m.answer? = none) :
    Failing drop start f calls answers := by
  have := h.fail fails hs
  rw [hc, ha] at this
  simpa only [Option.toList_none, List.append_nil] using this

theorem Failing.ended {rollback release : Call} (h : Failing drop start f calls answers)
    (hb : rollback.request = .rollback) (hr : release.request = .release) :
    ∃ trace, Course drop start trace (some f) ∧ callsOf trace = calls ++ [rollback, release] ∧
      answersOf trace = answers := by
  obtain ⟨trace, s, m, leads, fails, hs, rfl, rfl⟩ := h
  have he : [rollback, release].map Call.request = s.ending := by rw [hs, ← hb, ← hr]; rfl
  refine ⟨_, .failed leads fails he, ?_, ?_⟩
  · rw [List.append_cons, callsOf_append, callsOf_asked]
  · rw [List.append_cons, answersOf_append, answersOf_asked, List.append_nil]

theorem ending_of_flushes (h : s.flushes = true) : s.ending = [.rollback, .release] := by
  cases s with
  | closed _ _ => rfl
  | draining => rfl
  | _ => cases h

theorem ending_of_unread {a : Assembler} {items : List Item} (h : s.unread = some (a, items)) :
    s.ending = [.rollback, .release] := by
  cases s with
  | opening _ _ => rfl
  | reading _ _ => rfl
  | closed _ _ => rfl
  | _ => cases h

/-! ## Flushes -/

structure Writing.At (drop : Bool) (start : Stage) (d : Dataset) (answers : List Bool) (s : Stage)
    (t : Writing (Logged σ)) : Prop where
  dataset : t.writer.dataset = d
  led : Led drop start s t.store.calls answers

def Writing.Failing (drop : Bool) (start : Stage) (answers : List Bool) (f : LoadFault)
    (t : Writing (Logged σ)) : Prop :=
  MapTables.Failing drop start f t.store.calls answers

section

variable [Store σ] {d : Dataset}

theorem ask_answered {r : Request} {fault : StoreFault → LoadFault}
    (hf : ∀ f, s.Fails (.asked ⟨r, .error f⟩) (fault f)) (hs : s.ending = [.rollback, .release]) :
    Triple (Writing.At drop start d answers s)
      (Writing.ask r fault : WritingM (Logged σ) r.Answer)
      (fun a t => t.writer.dataset = d ∧ ∃ calls, Led drop start s calls answers ∧
        t.store.calls = calls ++ [⟨r, .ok a⟩])
      (Writing.Failing drop start answers) := by
  refine Triple.of_state fun t ⟨hd, ht⟩ => ?_
  refine (Logged.ask_spec r fault t).weaken (fun _ h => h) ?_ ?_
  · exact fun a u ⟨hw, hc⟩ => ⟨by rw [hw, hd], _, ht, hc⟩
  · rintro _ u ⟨f, rfl, -, hc⟩
    exact Led.fail_call ht hc (hf f) hs

theorem ask_at {r : Request} {fault : StoreFault → LoadFault} {n : r.Answer → Stage}
    (hp : ∀ a, s.Passes drop (.asked ⟨r, .ok a⟩) (n a))
    (hf : ∀ f, s.Fails (.asked ⟨r, .error f⟩) (fault f)) (hs : s.ending = [.rollback, .release]) :
    Triple (Writing.At drop start d answers s)
      (Writing.ask r fault : WritingM (Logged σ) r.Answer)
      (fun a => Writing.At drop start d answers (n a))
      (Writing.Failing drop start answers) := by
  refine (ask_answered hf hs).weaken (fun _ h => h) ?_ fun _ _ h => h
  rintro a t ⟨hd, calls, hled, hc⟩
  exact ⟨hd, hled.pass_call hc (hp a)⟩

theorem lookUp_at {table : String} {requests : List Request} {items : List Item} :
    Triple (Writing.At drop start d answers (.opening (.tableExists table :: requests) items))
      (Writing.ask (.tableExists table) (.refused .lookUpTables) : WritingM (Logged σ) Bool)
      (fun found t => if found then Writing.Failing drop start answers (.tableExists table) t
        else Writing.At drop start d answers (.opening requests items) t)
      (Writing.Failing drop start answers) := by
  refine (ask_answered (r := .tableExists table) (fun _ => .lookingUp) rfl).weaken
    (fun _ h => h) ?_ fun _ _ h => h
  rintro found t ⟨hd, calls, hled, hc⟩
  cases found with
  | true => exact hled.fail_call hc .found rfl
  | false => exact ⟨hd, hled.pass_call hc (.opening (c := ⟨.tableExists table, .ok false⟩) rfl)⟩

theorem flush_at (hs : s.flushes = true) (k : TableKind) :
    Triple (Writing.At drop start d answers s) (Writing.flush k : WritingM (Logged σ) Unit)
      (fun _ => Writing.At drop start d answers s) (Writing.Failing drop start answers) := by
  unfold Writing.flush
  refine Triple.get_bind fun w hw => ?_
  simp only
  generalize w.writer.dataset.tableName k = table
  generalize (w.writer.pending k).toList = rows
  refine Triple.bind ((ask_at (r := .insert k table rows) (n := fun _ => .inserted table s)
    (fun _ => .inserted hs) (fun _ => .inserting hs) (ending_of_flushes hs)).weaken
    (fun _ h => h ▸ hw) (fun _ _ h => h) fun _ _ h => h) fun stored => ?_
  refine Triple.bind (ask_at (r := .commit) (fun _ => .committed) (fun _ => .committing) rfl)
    fun _ => ?_
  refine Triple.bind (ask_at (r := .beginTransaction) (fun _ => .begun) (fun _ => .resuming) rfl)
    fun _ => ?_
  exact Triple.bind (Q := fun _ => Writing.At drop start d answers s)
    (Triple.modify fun _ h => ⟨h.dataset, h.led⟩) fun _ => Triple.modify fun _ h => ⟨h.dataset, h.led⟩

theorem poll_at (hs : s.flushes = true) :
    Triple (Writing.At drop start d answers s) (Writing.poll : WritingM (Logged σ) Unit)
      (fun _ => Writing.At drop start d answers s) (Writing.Failing drop start answers) := by
  refine Triple.forM (I := fun _ => Writing.At drop start d answers s) TableKind.all
    fun _ k _ _ => ?_
  refine Triple.bind (Q := fun _ => Writing.At drop start d answers s) ?_
    fun _ => Triple.pure fun _ h => h
  unfold Writing.flushIfDue
  refine Triple.get_bind fun w hw => ?_
  split
  · refine Triple.bind (Q := fun _ => Writing.At drop start d answers s) ?_
      fun _ => Triple.pure fun _ h => h
    exact (flush_at hs k).weaken (fun _ h => h ▸ hw) (fun _ _ h => h) fun _ _ h => h
  · exact Triple.pure fun _ h => h ▸ hw

theorem flushAll_at (hs : s.flushes = true) :
    Triple (Writing.At drop start d answers s) (Writing.flushAll : WritingM (Logged σ) Unit)
      (fun _ => Writing.At drop start d answers s) (Writing.Failing drop start answers) := by
  refine Triple.forM (I := fun _ => Writing.At drop start d answers s) TableKind.all
    fun _ k _ _ => ?_
  refine Triple.get_bind fun w hw => ?_
  split
  · exact Triple.pure fun _ h => h ▸ hw
  · exact (flush_at hs k).weaken (fun _ h => h ▸ hw) (fun _ _ h => h) fun _ _ h => h

end

namespace Load

/-- The load has come to the stage, and its watcher is not held back. -/
structure At (drop : Bool) (start : Stage) (d : Dataset) (a : Assembler) (s : Stage)
    (l : Load (Logged σ) (Overheard ω)) : Prop where
  heard : l.watcher.heldBack = false
  dataset : l.writing.writer.dataset = d
  assembler : l.assembler = a
  led : Led drop start s l.writing.store.calls l.watcher.answers

def Failing (drop : Bool) (start : Stage) (f : LoadFault) (l : Load (Logged σ) (Overheard ω)) :
    Prop :=
  MapTables.Failing drop start f l.writing.store.calls l.watcher.answers

variable {d : Dataset} {a : Assembler} {items : List Item}

theorem At.of_still {l l' : Load (Logged σ) (Overheard ω)} (h : At drop start d a s l)
    (hs : Still l l') (hw : l'.watcher.answers = l.watcher.answers)
    (hh : l'.watcher.heldBack = l.watcher.heldBack) : At drop start d a s l' := by
  obtain ⟨hheard, hd, ha, hled⟩ := h
  refine ⟨hh.trans hheard, by rw [hs.writer, hd], by rw [hs.assembler, ha], ?_⟩
  rw [hs.store, hw]
  exact hled

theorem byWriter_at {α : Type} {x : WritingM (Logged σ) α} {next : α → Stage}
    (h : ∀ answers, Triple (Writing.At drop start d answers s) x
      (fun a => Writing.At drop start d answers (next a)) (Writing.Failing drop start answers)) :
    Triple (At drop start d a s)
      (byWriter x : LoadM (Logged σ) (Overheard ω) α)
      (fun b => At drop start d a (next b)) (Failing drop start) := by
  refine byWriter_spec fun l hl => (h l.watcher.answers l.writing ⟨hl.dataset, hl.led⟩).imp ?_ ?_
  · exact fun b t ht => ⟨hl.heard, ht.dataset, hl.assembler, ht.led⟩
  · exact fun f t ht => ht

theorem enter_at (phase : Phase) :
    Triple (At drop start d a s) (enter phase : LoadM (Logged σ) (Overheard ω) Unit)
      (fun _ => At drop start d a s) (Failing drop start) :=
  enter_spec fun _ h _ => h.of_still ⟨rfl, rfl, rfl⟩ rfl rfl

/-! ## Opening -/

section

variable {requests : List Request}

theorem forM_at {α : Type} {g : α → LoadM (Logged σ) (Overheard ω) PUnit} {q : α → Request}
    (l : List α) (h : ∀ b requests, Triple (At drop start d a (.opening (q b :: requests) items))
      (g b) (fun _ => At drop start d a (.opening requests items)) (Failing drop start)) :
    Triple (At drop start d a (.opening (l.map q ++ requests) items)) (l.forM g)
      (fun _ => At drop start d a (.opening requests items)) (Failing drop start) := by
  induction l with
  | nil => exact Triple.pure fun _ h => h
  | cons b l ih => exact Triple.bind (h b _) fun _ => ih

variable [Store σ]

theorem dropTables_at :
    Triple (At drop start d a (.opening (d.tableNames.map .dropTable ++ requests) items))
      (dropTables : LoadM (Logged σ) (Overheard ω) Unit)
      (fun _ => At drop start d a (.opening requests items)) (Failing drop start) := by
  refine Triple.get_bind fun l hl => ?_
  rw [hl.dataset]
  refine (forM_at _ fun table requests => ?_).weaken (by rintro _ rfl; exact hl) (fun _ _ h => h)
    fun _ _ h => h
  exact byWriter_at fun _ => ask_at (r := .dropTable table)
    (fun _ => .opening (c := ⟨.dropTable table, .ok ()⟩) rfl) (fun _ => .dropping) rfl

theorem checkTables_at :
    Triple (At drop start d a (.opening (d.tableNames.map .tableExists ++ requests) items))
      (checkTables : LoadM (Logged σ) (Overheard ω) Unit)
      (fun _ => At drop start d a (.opening requests items)) (Failing drop start) := by
  refine Triple.get_bind fun l hl => ?_
  rw [hl.dataset]
  refine (forM_at _ fun table requests => ?_).weaken (by rintro _ rfl; exact hl) (fun _ _ h => h)
    fun _ _ h => h
  refine Triple.bind (Q := fun found => if found then Failing drop start (.tableExists table)
      else At drop start d a (.opening requests items)) (byWriter_spec fun l hl =>
    (lookUp_at l.writing ⟨hl.dataset, hl.led⟩).imp (fun found t ht => ?_) fun _ _ h => h)
    fun found => ?_
  · cases found with
    | true => exact ht
    | false => exact ⟨hl.heard, ht.dataset, hl.assembler, ht.led⟩
  · cases found with
    | true => exact Triple.throw fun _ h => h
    | false => exact Triple.pure fun _ h => h

theorem createTables_at :
    Triple (At drop start d a
        (.opening (d.tables.map (fun t => .createTable t.1 t.2) ++ requests) items))
      (createTables : LoadM (Logged σ) (Overheard ω) Unit)
      (fun _ => At drop start d a (.opening requests items)) (Failing drop start) := by
  refine Triple.get_bind fun l hl => ?_
  rw [hl.dataset]
  refine (forM_at _ fun t requests => ?_).weaken (by rintro _ rfl; exact hl) (fun _ _ h => h)
    fun _ _ h => h
  exact byWriter_at fun _ => ask_at (r := .createTable t.1 t.2)
    (fun _ => .opening (c := ⟨.createTable t.1 t.2, .ok ()⟩) rfl) (fun _ => .creating) rfl

theorem openTables_at :
    Triple (At drop start d a (.opening (openingRequests d drop) items))
      (openTables drop : LoadM (Logged σ) (Overheard ω) Unit)
      (fun _ => At drop start d a (.opening [] items)) (Failing drop start) := by
  have made : Triple (At drop start d a (.opening (d.tableNames.map .tableExists ++
        (d.tables.map (fun t => .createTable t.1 t.2) ++ [.beginTransaction])) items))
      (do checkTables
          createTables
          Load.ask .beginTransaction (.refused .beginTransaction) :
        LoadM (Logged σ) (Overheard ω) Unit)
      (fun _ => At drop start d a (.opening [] items)) (Failing drop start) := by
    refine Triple.bind checkTables_at fun _ => Triple.bind createTables_at fun _ => ?_
    exact byWriter_at fun _ => ask_at (r := .beginTransaction)
      (fun _ => .opening (c := ⟨.beginTransaction, .ok ()⟩) rfl) (fun _ => .beginning) rfl
  unfold openTables openingRequests
  simp only [List.append_assoc]
  cases drop with
  | true => exact Triple.bind dropTables_at fun _ => made
  | false => exact made

end

/-! ## Reading -/

def Unread (drop : Bool) (start : Stage) (d : Dataset) (items : List Item)
    (l : Load (Logged σ) (Overheard ω)) : Prop :=
  ∃ a s, s.unread = some (a, items) ∧ At drop start d a s l

variable {e : Event}

theorem cancel_failing :
    Triple (Failing drop start .cancelled) (cancel : LoadM (Logged σ) (Overheard ω) Unit)
      (fun _ _ => False) (Failing drop start) :=
  cancel_quits fun _ ⟨_, _, h, he⟩ => he ▸ h

theorem assemble_at :
    Triple (At drop start d a (.cleared a e items))
      (assemble e : LoadM (Logged σ) (Overheard ω) Change)
      (fun change l => match change with
        | .closed _ => ∃ b, At drop start d b (.closed b items) l
        | _ => ∃ b, At drop start d b (.reading b items) l) (Failing drop start) := by
  refine assemble_ends (fun l f hl hs => ?_) fun l t lines hl hs => ?_
  all_goals rw [hl.assembler] at hs
  · exact hl.led.fail_unseen (.misplaced hs) rfl rfl rfl
  · have passed : At drop start d t.next (follow t items) { l with
        writing := { l.writing with writer := t.rows.foldl Writer.enqueue l.writing.writer, lines }
        assembler := t.next } :=
      ⟨hl.heard, (enqueueAll_setup l.writing.writer t.rows).1.trans hl.dataset, rfl,
        hl.led.pass_unseen (.assembled hs) rfl rfl⟩
    unfold follow at passed
    split
    · next hc =>
      rw [hc] at passed
      exact ⟨_, passed⟩
    · next hc =>
      split at passed
      · next hc' => exact (hc _ hc').elim
      · exact ⟨_, passed⟩

variable [Watcher ω]

theorem isCancelled_at :
    Triple (At drop start d a (.heard a e items))
      (isCancelled : LoadM (Logged σ) (Overheard ω) Bool)
      (fun stop => if stop then Failing drop start .cancelled
        else At drop start d a (.cleared a e items)) (Failing drop start) := by
  refine Triple.modifyGet fun l hl => ?_
  obtain ⟨hheard, hd, ha, hled⟩ := hl
  have hstop : (Watcher.poll l.watcher).1 = (Watcher.poll l.watcher.watcher).1 := by
    change ((Watcher.poll l.watcher.watcher).1 && !l.watcher.heldBack) = _
    rw [hheard, Bool.not_false, Bool.and_true]
  simp only [hstop]
  cases hpoll : (Watcher.poll l.watcher.watcher).1 with
  | true =>
    have := hled.fail .cancelled rfl
    simp only [Moment.call?, Moment.answer?, Option.toList, List.append_nil, ← hpoll] at this
    exact this
  | false =>
    have := hled.pass .polled
    simp only [Moment.call?, Moment.answer?, Option.toList, List.append_nil, ← hpoll] at this
    exact ⟨hheard, hd, ha, this⟩

theorem count_at (gauge : Gauge) (drawn : Nat) :
    Triple (At drop start d a s) (count gauge drawn : LoadM (Logged σ) (Overheard ω) Unit)
      (fun _ => At drop start d a s) (Failing drop start) := by
  refine Triple.get_bind fun l hl => ?_
  obtain ⟨ha, hh⟩ := l.watcher.featureClosed_heard l.monitor gauge drawn
  refine Triple.bind (Q := fun _ => Still l) (sayAll_spec ?_) fun _ => Triple.modify ?_
  · rintro _ rfl lines
    exact ⟨rfl, rfl, rfl⟩
  · exact fun l' hs => hl.of_still ⟨hs.writer, hs.store, hs.assembler⟩ ha hh

variable [Store σ]

theorem passEvent_at (gauge : Gauge) (drawn : Nat) :
    Triple (At drop start d a (.cleared a e items))
      (passEvent gauge drawn e : LoadM (Logged σ) (Overheard ω) Unit)
      (fun _ => Unread drop start d items) (Failing drop start) := by
  unfold passEvent
  refine Triple.bind assemble_at fun change => ?_
  cases change with
  | closed k =>
    refine Triple.of_state fun l ⟨b, hl⟩ => ?_
    refine Triple.bind ((byWriter_at fun _ => poll_at (s := .closed b items) rfl).weaken
      (by rintro _ rfl; exact hl) (fun _ _ h => h) fun _ _ h => h) fun _ => ?_
    exact (count_at gauge drawn).weaken (fun _ h => h) (fun _ _ h => ⟨b, _, rfl, h⟩) fun _ _ h => h
  | _ => exact Triple.pure fun l ⟨b, h⟩ => ⟨b, _, rfl, h⟩

theorem take_at (gauge : Gauge) (i : Item) :
    Triple (Unread drop start d (i :: items))
      (take gauge i : LoadM (Logged σ) (Overheard ω) Unit)
      (fun _ => Unread drop start d items) (Failing drop start) := by
  refine Triple.of_state fun l ⟨a, s, hs, hl⟩ => ?_
  unfold take
  cases hi : i.what with
  | error f =>
    refine Triple.throw ?_
    rintro _ rfl
    exact hl.led.fail_unseen (.unread hs hi) (ending_of_unread hs) rfl rfl
  | ok e =>
    have heard : At drop start d a (hear a e items) l :=
      ⟨hl.heard, hl.dataset, hl.assembler, hl.led.pass_unseen (.read hs hi) rfl rfl⟩
    unfold hear at heard
    unfold takeEvent
    simp only
    split
    · next ho =>
      rw [if_pos ho] at heard
      refine Triple.bind (isCancelled_at.weaken (by rintro _ rfl; exact heard) (fun _ _ h => h)
        fun _ _ h => h) fun stop => ?_
      cases stop with
      | true => exact Triple.bind cancel_failing fun _ _ h => h.elim
      | false => exact passEvent_at gauge i.drawn
    · next ho =>
      rw [if_neg ho] at heard
      exact (passEvent_at gauge i.drawn).weaken (by rintro _ rfl; exact heard) (fun _ _ h => h)
        fun _ _ h => h

theorem drain_at :
    Triple (Unread drop start d []) (drain : LoadM (Logged σ) (Overheard ω) Counts)
      (fun _ l => ∃ a, At drop start d a .draining l) (Failing drop start) := by
  unfold drain
  refine Triple.get_bind fun l ⟨a, s, hs, hl⟩ => ?_
  rw [hl.assembler]
  cases hf : a.finish with
  | error f =>
    refine Triple.throw ?_
    rintro _ rfl
    exact hl.led.fail_unseen (.unfinished hs hf) (ending_of_unread hs) rfl rfl
  | ok counts =>
    have finished : At drop start d a .draining l :=
      ⟨hl.heard, hl.dataset, hl.assembler, hl.led.pass_unseen (.finished hs hf) rfl rfl⟩
    refine Triple.bind ((enter_at .draining).weaken (by rintro _ rfl; exact finished)
      (fun _ _ h => h) fun _ _ h => h) fun _ => ?_
    refine Triple.bind (byWriter_at fun _ => flushAll_at rfl) fun _ => ?_
    refine Triple.bind (Q := fun _ => At drop start d a .draining) ?_
      fun _ => Triple.pure fun l h => ⟨a, h⟩
    refine Triple.get_bind fun l hl => ?_
    obtain ⟨ha, hh⟩ := l.watcher.finish_heard l.monitor
    refine Triple.bind (Q := fun _ => Still l) (sayAll_spec ?_) fun _ => Triple.modify ?_
    · rintro _ rfl lines
      exact ⟨rfl, rfl, rfl⟩
    · exact fun l' hs => hl.of_still ⟨hs.writer, hs.store, hs.assembler⟩ ha hh

theorem consume_at (gauge : Gauge) (items : List Item) :
    Triple (At drop start d {} (.opening [] items))
      (consume gauge items : LoadM (Logged σ) (Overheard ω) Counts)
      (fun _ l => ∃ a, At drop start d a .draining l) (Failing drop start) := by
  unfold consume
  refine Triple.bind (enter_at .reading) fun _ => ?_
  refine Triple.bind (Q := fun _ => Unread drop start d []) ?_ fun _ => drain_at
  refine Triple.weaken (P := Unread drop start d items) ?_ (fun l h => ⟨_, _, rfl, h⟩)
    (fun _ _ h => h) fun _ _ h => h
  induction items with
  | nil => exact Triple.pure fun _ h => h
  | cons i items ih => exact Triple.bind (take_at gauge i) fun _ => ih

/-! ## Closing -/

omit [Watcher ω] in
theorem reply_heard {P : List Call → List Bool → Prop} (r : Request) :
    Triple (fun l : Load (Logged σ) (Overheard ω) => P l.writing.store.calls l.watcher.answers)
      (Load.reply r)
      (fun b l => ∃ calls, P calls l.watcher.answers ∧ l.writing.store.calls = calls ++ [⟨r, b⟩])
      (fun _ _ => False) := by
  refine byWriter_spec fun l hl => ?_
  exact (Logged.reply_spec r l.writing l.writing rfl).imp
    (fun _ t ht => ⟨l.writing.store.calls, hl, ht.2⟩) fun _ _ h => h

def Resulted (drop : Bool) (start : Stage) (d : Dataset) (result : Except LoadFault Counts)
    (l : Load (Logged σ) (Overheard ω)) : Prop :=
  match result with
  | .ok _ => ∃ a, At drop start d a .draining l
  | .error f => Failing drop start f l

def Settling (drop : Bool) (start : Stage) (result : Except LoadFault Counts)
    (l : Load (Logged σ) (Overheard ω)) : Prop :=
  match result with
  | .ok _ => Led drop start .settled l.writing.store.calls l.watcher.answers
  | .error f => ∃ calls c, MapTables.Failing drop start f calls l.watcher.answers ∧
      c.request = .rollback ∧ l.writing.store.calls = calls ++ [c]

omit [Watcher ω] in
theorem rollback_heard :
    Triple (Failing drop start f) (rollback : LoadM (Logged σ) (Overheard ω) Unit)
      (fun _ => Settling drop start (.error f)) (fun _ _ => False) := by
  unfold rollback
  refine Triple.bind (reply_heard (P := MapTables.Failing drop start f) .rollback) fun b => ?_
  cases b with
  | ok _ => exact Triple.pure fun l ⟨calls, h, hc⟩ => ⟨calls, _, h, rfl, hc⟩
  | error f => exact sayAll_spec fun l ⟨calls, h, hc⟩ _ => ⟨calls, _, h, rfl, hc⟩

omit [Watcher ω] in
theorem settle_heard (result : Except LoadFault Counts) :
    Triple (Resulted drop start d result)
      (settle result : LoadM (Logged σ) (Overheard ω) (Except LoadFault Counts))
      (fun result => Settling drop start result) (fun _ _ => False) := by
  unfold settle
  cases result with
  | error f => exact Triple.bind rollback_heard fun _ => Triple.pure fun _ h => h
  | ok counts =>
    have drained (l : Load (Logged σ) (Overheard ω)) (hl : Resulted drop start d (.ok counts) l) :
        Led drop start .draining l.writing.store.calls l.watcher.answers := by
      obtain ⟨a, h⟩ := hl
      exact h.led
    refine Triple.bind ((reply_heard (P := Led drop start .draining) .commit).weaken drained
      (fun _ _ h => h) fun _ _ h => h) fun b => ?_
    cases b with
    | ok _ =>
      refine Triple.pure ?_
      rintro l ⟨calls, h, hc⟩
      exact h.pass_call hc .settled
    | error f =>
      refine Triple.bind (rollback_heard.weaken ?_ (fun _ _ h => h) fun _ _ h => h)
        fun _ => Triple.pure fun _ h => h
      rintro l ⟨calls, h, hc⟩
      exact h.fail_call hc .settling rfl

/-- The load has taken a course to its end. -/
def Ended (drop : Bool) (start : Stage) (fault : Option LoadFault)
    (l : Load (Logged σ) (Overheard ω)) : Prop :=
  ∃ trace, Course drop start trace fault ∧ callsOf trace = l.writing.store.calls ∧
    answersOf trace = l.watcher.answers

omit [Watcher ω] in
theorem close_heard (result : Except LoadFault Counts) :
    Triple (Resulted drop start d result)
      (close result : LoadM (Logged σ) (Overheard ω) Report)
      (fun _ => Ended drop start none) (fun f => Ended drop start (some f)) := by
  unfold close
  refine Triple.bind (Q := fun _ => Resulted drop start d result)
    (enter_spec fun l h lines => ?_) fun _ => ?_
  · cases result with
    | ok _ => exact h.imp fun _ h => h.of_still ⟨rfl, rfl, rfl⟩ rfl rfl
    | error f => exact h
  refine Triple.bind ((settle_heard result).weaken (fun _ h => h) (fun _ _ h => h)
    fun _ _ h => h.elim) fun settled => ?_
  cases settled with
  | ok counts =>
    refine Triple.bind ((reply_heard (P := Led drop start .settled) .release).weaken
      (fun _ h => h) (fun _ _ h => h) fun _ _ h => h.elim) fun b => ?_
    cases b with
    | ok _ =>
      refine Triple.get_bind fun l ⟨calls, h, hc⟩ => Triple.pure ?_
      rintro _ rfl
      obtain ⟨trace, leads, hcalls, hanswers⟩ := h.pass_call hc .released
      exact ⟨trace, .ended leads, hcalls, hanswers⟩
    | error f =>
      refine Triple.throw ?_
      rintro l ⟨_, ⟨trace, leads, rfl, hanswers⟩, hc⟩
      refine ⟨_, .failed leads .releasing (List.map_nil), ?_, ?_⟩
      · rw [callsOf_append, hc]
        rfl
      · rw [answersOf_append, hanswers]
        exact List.append_nil _
  | error fault =>
    refine Triple.bind ((reply_heard (P := fun calls answers => ∃ before, ∃ c : Call,
      MapTables.Failing drop start fault before answers ∧ c.request = .rollback ∧
        calls = before ++ [c]) .release).weaken (fun _ h => h) (fun _ _ h => h)
      fun _ _ h => h.elim) fun b => ?_
    -- Whatever the release is answered, the fault stays.
    refine Triple.weaken (P := Ended drop start (some fault)) ?_ ?_ (fun _ _ h => h) fun _ _ h => h
    · cases b with
      | ok _ => exact Triple.throw fun _ h => h
      | error f =>
        exact Triple.bind (Q := fun _ => Ended drop start (some fault))
          (sayAll_spec fun _ h _ => h) fun _ => Triple.throw fun _ h => h
    · rintro l ⟨_, ⟨_, c, h, hb, rfl⟩, hc⟩
      have := h.ended hb (show Call.request ⟨.release, b⟩ = .release from rfl)
      rwa [List.append_cons, ← hc] at this

theorem run_heard (gauge : Gauge) :
    Triple (At drop start d {} (.opening (openingRequests d drop) items))
      (run drop gauge items : LoadM (Logged σ) (Overheard ω) Report)
      (fun _ => Ended drop start none) (fun f => Ended drop start (some f)) := by
  have attempted := attempt_spec (S := Resulted drop start d) (E := fun _ _ => False)
    (Triple.bind openTables_at fun _ => consume_at (σ := σ) (ω := ω) gauge items)
  refine Triple.bind (attempted.weaken (fun _ h => h) (fun _ _ h => h) fun _ _ h => h.elim)
    fun result => ?_
  refine Triple.bind (close_heard result) fun _ => ?_
  exact Triple.bind (Q := fun _ => Ended drop start none) (sayAll_spec fun _ h _ => h)
    fun _ => Triple.pure fun _ h => h

end Load

/-! ## Whole loads -/

def Outcome.Follows (x : Outcome (Logged σ) (Overheard ω)) (drop : Bool) (start : Stage)
    (trace : List Moment) (fault : Option LoadFault) : Prop :=
  Course drop start trace fault ∧ callsOf trace = x.store.calls ∧
    answersOf trace = x.watcher.answers ∧ ∀ f, x.result = .error f ↔ fault = some f

variable [Store σ] [Watcher ω]

theorem load_follows_course (i : Input) (s : σ) (base : String) (w : ω) (options : Options) :
    ∃ trace fault, (load i (Logged.mk s []) base (Overheard.mk w [] false) options).Follows
      options.dropExisting (.start base (i.items options.encoding)) trace fault := by
  have error_iff {f : LoadFault} (g : LoadFault) :
      (Except.error f : Except LoadFault Report) = .error g ↔ some f = some g :=
    ⟨fun h => congrArg some (Except.error.inj h), fun h => congrArg _ (Option.some.inj h)⟩
  cases hd : Dataset.ofBase base with
  | error f =>
    rw [load, hd]
    exact ⟨_, _, .failed .start (.unnamed hd) List.map_nil, rfl, rfl, error_iff⟩
  | ok d =>
    obtain rfl := Dataset.base_of_ofBase hd
    cases hi : i.items options.encoding with
    | error f =>
      rw [load_of_unread hi]
      exact ⟨_, _, .failed (.pass .start (.named hd)) .unopened List.map_nil, rfl, rfl, error_iff⟩
    | ok items =>
      obtain ⟨lines, hl⟩ := load_of_items hi (Logged.mk s []) d (Overheard.mk w [] false)
      have opened : Load.At options.dropExisting (.start d.base (.ok items)) d {}
          (.opening (openingRequests d options.dropExisting) items)
          (Load.initial d i (Logged.mk s []) (Overheard.mk w [] false) options lines) :=
        ⟨rfl, rfl, rfl, _, .pass (.pass .start (.named hd)) .opened, rfl, rfl⟩
      have hrun := Load.run_heard i.gauge _ opened
      rw [hl]
      unfold Ending at hrun
      unfold Outcome.ofEnd
      split at hrun
      · next hr =>
        obtain ⟨trace, course, hc, ha⟩ := hrun
        rw [hr]
        refine ⟨trace, none, course, hc, ha, fun f => ⟨fun h => ?_, fun h => ?_⟩⟩ <;> cases h
      · next hr =>
        obtain ⟨trace, course, hc, ha⟩ := hrun
        rw [hr]
        exact ⟨trace, _, course, hc, ha, error_iff⟩

/-- The fault that a load reports is the first one. It goes well just if each call passes, no
answer stops it and the document comes to rows. A table that is there is the first one in the
order of the tables, and a refused release is reported only if all else went well. -/
theorem load_reports_first_fault (i : Input) (s : σ) (base : String) (w : ω) (options : Options) :
    let plain := load i s base w options
    let x := load i (Logged.mk s []) base (Overheard.mk w [] false) options
    let document := i.items options.encoding
    plain.result = x.result ∧
    (∃ trace fault, x.Follows options.dropExisting (.start base document) trace fault) ∧
    ((∃ report, plain.result = .ok report) ↔
      Faultless base document x.store.calls x.watcher.answers) ∧
    (∀ table, plain.result = .error (.tableExists table) → ∃ before after,
      x.store.calls = before ++ ⟨.tableExists table, .ok true⟩ :: after ∧
      (∀ c ∈ before, c.passes = true) ∧ ∃ d, Dataset.ofBase base = .ok d ∧
        before.map Call.request ++ [.tableExists table] <+:
          openingRequests d options.dropExisting) ∧
    ∀ f, plain.result = .error (.notReleased f) → ∃ before,
      x.store.calls = before ++ [⟨.release, .error f⟩] ∧
        Faultless base document before x.watcher.answers := by
  intro plain x document
  have hresult : plain.result = x.result := (load_overheard i s base w options).1.result
  obtain ⟨trace, fault, hx⟩ := load_follows_course i s base w options
  obtain ⟨course, hcalls, hanswers, hfault⟩ := id hx
  rw [hresult, ← hcalls, ← hanswers]
  refine ⟨rfl, ⟨trace, fault, hx⟩, ?_, fun table h => ?_, fun f h => ?_⟩
  · rw [← course.eq_none_iff]
    cases hr : x.result with
    | ok report =>
      refine iff_of_true ⟨report, rfl⟩ ?_
      cases fault with
      | none => rfl
      | some f => cases hr.symm.trans ((hfault f).mpr rfl)
    | error f => exact iff_of_false nofun fun hn => nomatch hn.symm.trans ((hfault f).mp hr)
  · rw [(hfault _).mp h] at course
    exact course.of_found
  · rw [(hfault _).mp h] at course
    exact course.of_unreleased

end MapTables
