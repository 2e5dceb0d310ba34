import MapTables.Proofs.Load.Halves
import MapTables.Proofs.Load.Overheard
import MapTables.Proofs.Store.Driven

/-!
# Loads that are cancelled

A watcher that stops a load cuts it before a feature. Up to there the load goes as it goes when
the same watcher is held back, and then it only takes back what is not final and lets the store
go.
-/

namespace MapTables

namespace Load

variable {σ ω α β : Type} {polls : Bool}

def hold (held : Bool) (l : Load σ (Overheard ω)) : Load σ (Overheard ω) :=
  { l with watcher := l.watcher.hold held }

/-- As long as the watcher stops nothing it does not matter whether it is held back. Without polls
it is not even asked. -/
structure Heedless (polls : Bool) (x : LoadM σ (Overheard ω) α) : Prop where
  held : ∀ l, (x l).2.watcher.heldBack = l.watcher.heldBack
  grows : ∀ l, ∃ new, (x l).2.watcher.answers = l.watcher.answers ++ new ∧
    (polls = false → new = [])
  alike : ∀ l, l.watcher.heldBack = true → true ∉ (x l).2.watcher.answers →
    x (l.hold false) = ((x l).1, (x l).2.hold false)

namespace Heedless

theorem of_unwatched {x : LoadM σ (Overheard ω) α}
    (h : ∀ l v, x { l with watcher := v } = ((x l).1, { (x l).2 with watcher := v })) :
    Heedless polls x := by
  have same (l : Load σ (Overheard ω)) : (x l).2.watcher = l.watcher :=
    congrArg (fun r => r.2.watcher) (h l l.watcher)
  exact ⟨fun l => by rw [same], fun l => ⟨[], by rw [same, List.append_nil], fun _ => rfl⟩,
    fun l _ _ => by rw [hold, h, hold, same]⟩

theorem pure {a : α} : Heedless polls (pure a : LoadM σ (Overheard ω) α) :=
  of_unwatched fun _ _ => rfl

theorem throw {f : LoadFault} : Heedless polls (throw f : LoadM σ (Overheard ω) α) :=
  of_unwatched fun _ _ => rfl

theorem byWriter (x : WritingM σ α) :
    Heedless polls (byWriter x : LoadM σ (Overheard ω) α) :=
  of_unwatched fun _ _ => rfl

theorem polling {x : LoadM σ (Overheard ω) α} (h : Heedless false x) : Heedless polls x :=
  ⟨h.held, fun l => (h.grows l).imp fun _ hn => ⟨hn.1, fun _ => hn.2 rfl⟩, h.alike⟩

theorem bind {x : LoadM σ (Overheard ω) α} {f : α → LoadM σ (Overheard ω) β}
    (hx : Heedless polls x) (hf : ∀ a, Heedless polls (f a)) : Heedless polls (x >>= f) := by
  refine ⟨fun l => ?_, fun l => ?_, fun l hl hn => ?_⟩
  · have hh := hx.held l
    rw [bind_run]
    rcases hxl : (x l : Except LoadFault α × Load σ (Overheard ω)) with ⟨e | a, t⟩
    all_goals rw [hxl] at hh
    · exact hh
    · exact ((hf a).held t).trans hh
  · have hg := hx.grows l
    rw [bind_run]
    rcases hxl : (x l : Except LoadFault α × Load σ (Overheard ω)) with ⟨e | a, t⟩
    all_goals rw [hxl] at hg
    · exact hg
    · obtain ⟨new, hnew, hn⟩ := hg
      obtain ⟨more, hmore, hm⟩ := (hf a).grows t
      refine ⟨new ++ more, ?_, fun hp => ?_⟩
      · rw [← List.append_assoc, ← hnew]
        exact hmore
      · rw [hn hp, hm hp, List.append_nil]
  · have hh := hx.held l
    have ha := hx.alike l hl
    rw [bind_run] at hn ⊢
    rw [bind_run]
    rcases hxl : (x l : Except LoadFault α × Load σ (Overheard ω)) with ⟨e | a, t⟩
    all_goals
      rw [hxl] at hh ha hn
      simp only at hn ha
    · rw [ha hn]
    · -- What was answered in `x` is among the answers in the end.
      obtain ⟨more, hmore, -⟩ := (hf a).grows t
      rw [ha fun h => hn (hmore ▸ List.mem_append_left more h)]
      exact (hf a).alike t (hh.trans hl) hn

theorem get_bind {f : Load σ (Overheard ω) → LoadM σ (Overheard ω) β}
    (hf : ∀ l, Heedless polls (f l)) (hh : ∀ l, f (l.hold false) = f l) :
    Heedless polls (get >>= f) := by
  refine ⟨fun l => (hf l).held l, fun l => (hf l).grows l, fun l hl hn => ?_⟩
  change f (l.hold false) (l.hold false) = _
  rw [hh]
  exact (hf l).alike l hl hn

theorem forM {f : α → LoadM σ (Overheard ω) PUnit} (l : List α) (hf : ∀ a, Heedless polls (f a)) :
    Heedless polls (l.forM f) := by
  induction l with
  | nil => exact pure
  | cons a l ih => exact bind (hf a) fun _ => ih

theorem attempt {x : LoadM σ (Overheard ω) α} (hx : Heedless polls x) :
    Heedless polls (attempt x) := by
  refine ⟨hx.held, hx.grows, fun l hl hn => ?_⟩
  change (Except.ok (x (l.hold false)).1, (x (l.hold false)).2) = _
  rw [hx.alike l hl hn]
  rfl

theorem answers_eq {x : LoadM σ (Overheard ω) α} (h : Heedless false x)
    (l : Load σ (Overheard ω)) : (x l).2.watcher.answers = l.watcher.answers := by
  obtain ⟨new, hnew, hn⟩ := h.grows l
  rw [hnew, hn rfl, List.append_nil]

theorem answers_bind {x : LoadM σ (Overheard ω) α} {f : α → LoadM σ (Overheard ω) β}
    (hf : ∀ a, Heedless false (f a)) (l : Load σ (Overheard ω)) :
    ((x >>= f) l).2.watcher.answers = (x l).2.watcher.answers := by
  rw [bind_run]
  rcases hxl : (x l : Except LoadFault α × Load σ (Overheard ω)) with ⟨e | a, t⟩
  · rfl
  · exact (hf a).answers_eq t

end Heedless

/-! ## Parts of a load -/

theorem enter_heedless (phase : Phase) :
    Heedless polls (enter phase : LoadM σ (Overheard ω) Unit) :=
  .of_unwatched fun _ _ => rfl

theorem assemble_heedless (e : Event) :
    Heedless polls (assemble e : LoadM σ (Overheard ω) Change) := by
  rw [assemble_eq]
  refine .get_bind (fun l => ?_) fun _ => rfl
  cases l.assembler.step e with
  | error f => exact .throw
  | ok t =>
    exact .bind (.byWriter _) fun _ => .bind (.of_unwatched fun _ _ => rfl) fun _ =>
      .bind (.byWriter _) fun _ => .pure

theorem cancel_heedless : Heedless polls (cancel : LoadM σ (Overheard ω) Unit) :=
  .bind (.byWriter _) fun _ => .bind (.byWriter _) fun _ => .throw

section

variable [Store σ]

theorem openTables_heedless (drop : Bool) :
    Heedless polls (openTables drop : LoadM σ (Overheard ω) Unit) := by
  have asked (r : Request) (fault : StoreFault → LoadFault) :
      Heedless polls (Load.ask r fault : LoadM σ (Overheard ω) r.Answer) := .byWriter _
  have dropped : Heedless polls (dropTables : LoadM σ (Overheard ω) Unit) :=
    .get_bind (fun _ => .forM _ fun _ => asked _ _) fun _ => rfl
  have checked : Heedless polls (checkTables : LoadM σ (Overheard ω) Unit) := by
    refine .get_bind (fun _ => .forM _ fun table => ?_) fun _ => rfl
    refine .bind (asked (.tableExists table) _) fun found => ?_
    cases found with
    | true => exact .throw
    | false => exact .pure
  have created : Heedless polls (createTables : LoadM σ (Overheard ω) Unit) :=
    .get_bind (fun _ => .forM _ fun _ => asked _ _) fun _ => rfl
  have made := Heedless.bind checked fun _ => Heedless.bind created fun _ =>
    asked .beginTransaction (.refused .beginTransaction)
  cases drop with
  | true => exact .bind dropped fun _ => made
  | false => exact made

theorem close_heedless (result : Except LoadFault Counts) :
    Heedless polls (close result : LoadM σ (Overheard ω) Report) := by
  have replied (r : Request) :
      Heedless polls (reply r : LoadM σ (Overheard ω) (Except StoreFault r.Answer)) := .byWriter _
  have takenBack : Heedless polls (rollback : LoadM σ (Overheard ω) Unit) := by
    refine .bind (replied .rollback) fun a => ?_
    cases a with
    | ok _ => exact .pure
    | error f => exact .byWriter _
  have settled : Heedless polls (settle result : LoadM σ (Overheard ω) _) := by
    cases result with
    | error f => exact .bind takenBack fun _ => .pure
    | ok counts =>
      refine .bind (replied .commit) fun a => ?_
      cases a with
      | ok _ => exact .pure
      | error f => exact .bind takenBack fun _ => .pure
  refine .bind (enter_heedless _) fun _ => .bind settled fun settled => ?_
  refine .bind (replied .release) fun released => ?_
  cases settled with
  | ok counts =>
    cases released with
    | ok _ => exact .get_bind (fun _ => .pure) fun _ => rfl
    | error f => exact .throw
  | error fault =>
    cases released with
    | ok _ => exact .throw
    | error f => exact .bind (.byWriter _) fun _ => .throw

end

variable [Watcher ω]

theorem isCancelled_heedless : Heedless true (isCancelled : LoadM σ (Overheard ω) Bool) := by
  refine ⟨fun _ => rfl, fun _ => ⟨_, rfl, nofun⟩, fun l hl hn => ?_⟩
  have stop : (Watcher.poll l.watcher.watcher).1 = false := by
    cases hs : (Watcher.poll l.watcher.watcher).1 with
    | false => rfl
    | true => exact (hn (List.mem_append_right _ (hs ▸ List.mem_singleton_self _))).elim
  have answer (held : Bool) : (Watcher.poll (l.watcher.hold held)).1 = false := by
    change ((Watcher.poll l.watcher.watcher).1 && !held) = false
    rw [stop, Bool.false_and]
  exact Prod.ext (congrArg Except.ok ((answer false).trans (answer l.watcher.heldBack).symm)) rfl

theorem count_heedless (gauge : Gauge) (drawn : Nat) :
    Heedless polls (count gauge drawn : LoadM σ (Overheard ω) Unit) := by
  refine ⟨fun l => ?_, fun l => ⟨[], ?_, fun _ => rfl⟩, fun l _ _ => ?_⟩
  · exact (l.watcher.featureClosed_heard l.monitor gauge drawn).2
  · rw [List.append_nil]
    exact (l.watcher.featureClosed_heard l.monitor gauge drawn).1
  · have told (l : Load σ (Overheard ω)) : count gauge drawn l =
        let sampled := l.monitor.featureClosed gauge drawn l.watcher
        (.ok (), { l with
          writing := { l.writing with lines := l.writing.lines ++ sampled.lines }
          monitor := sampled.monitor
          watcher := sampled.watcher }) := rfl
    rw [told, told]
    simp only [hold, Overheard.featureClosed_hold]

theorem countLast_heedless : Heedless polls (countLast : LoadM σ (Overheard ω) Unit) := by
  refine ⟨fun l => ?_, fun l => ⟨[], ?_, fun _ => rfl⟩, fun l _ _ => ?_⟩
  · exact (l.watcher.finish_heard l.monitor).2
  · rw [List.append_nil]
    exact (l.watcher.finish_heard l.monitor).1
  · have told (l : Load σ (Overheard ω)) : countLast l =
        let (watcher, lines) := l.monitor.finish l.watcher
        (.ok (), { l with
          writing := { l.writing with lines := l.writing.lines ++ lines }
          watcher }) := rfl
    rw [told, told]
    simp only [hold, Overheard.finish_hold]

variable [Store σ]

theorem passEvent_heedless (gauge : Gauge) (drawn : Nat) (e : Event) :
    Heedless polls (passEvent gauge drawn e : LoadM σ (Overheard ω) Unit) := by
  refine .bind (assemble_heedless e) fun change => ?_
  cases change with
  | closed k => exact .bind (.byWriter _) fun _ => count_heedless gauge drawn
  | _ => exact .pure

theorem drain_heedless : Heedless polls (drain : LoadM σ (Overheard ω) Counts) := by
  refine .get_bind (fun l => ?_) fun _ => rfl
  cases l.assembler.finish with
  | error f => exact .throw
  | ok counts =>
    exact .bind (enter_heedless _) fun _ => .bind (.byWriter _) fun _ =>
      .bind countLast_heedless fun _ => .pure

end Load

def Item.opens (i : Item) : Bool :=
  match i.what with
  | .ok e => e.opensFeature
  | .error _ => false

theorem Item.opens_of_ok {i : Item} {e : Event} (hi : i.what = .ok e) :
    i.opens = e.opensFeature := by
  rw [opens, hi]

def openings (items : List Item) : Nat := items.countP Item.opens

namespace Load

variable {σ ω : Type} [Watcher ω] [Store σ] {gauge : Gauge} {drop : Bool} {i : Item}
  {before after items : List Item}

/-- What is done with an event once the watcher was asked. -/
def afterPoll (gauge : Gauge) (drawn : Nat) (e : Event) (stop : Bool) : LoadM σ ω Unit := do
  if stop then cancel
  passEvent gauge drawn e

theorem take_of_opens {e : Event} (hi : i.what = .ok e) (ho : e.opensFeature = true) :
    (take gauge i : LoadM σ ω Unit) = isCancelled >>= afterPoll gauge i.drawn e := by
  rw [take, hi]
  unfold takeEvent
  simp only [ho, if_true]
  rfl

theorem afterPoll_heedless (gauge : Gauge) (drawn : Nat) (e : Event) (stop : Bool) :
    Heedless polls (afterPoll gauge drawn e stop : LoadM σ (Overheard ω) Unit) := by
  cases stop with
  | true => exact .bind cancel_heedless fun _ => passEvent_heedless gauge drawn e
  | false => exact passEvent_heedless gauge drawn e

theorem take_heedless (gauge : Gauge) (i : Item) :
    Heedless i.opens (take gauge i : LoadM σ (Overheard ω) Unit) := by
  cases hi : i.what with
  | error f =>
    rw [take, hi]
    exact .throw
  | ok e =>
    rw [Item.opens_of_ok hi]
    cases ho : e.opensFeature with
    | true =>
      rw [take_of_opens hi ho]
      exact .bind isCancelled_heedless fun stop => afterPoll_heedless gauge i.drawn e stop
    | false =>
      rw [take, hi]
      unfold takeEvent
      simp only [ho]
      exact passEvent_heedless gauge i.drawn e

theorem answers_take_of_opens (gauge : Gauge) (ho : i.opens = true) (l : Load σ (Overheard ω)) :
    (take gauge i l).2.watcher.answers =
      l.watcher.answers ++ [(Watcher.poll l.watcher.watcher).1] := by
  unfold Item.opens at ho
  split at ho
  · next e hi =>
    rw [take_of_opens hi ho, Heedless.answers_bind (afterPoll_heedless gauge i.drawn e)]
    rfl
  · cases ho

theorem answers_take (gauge : Gauge) (i : Item) (l : Load σ (Overheard ω)) :
    (take gauge i l).2.watcher.answers.length =
      l.watcher.answers.length + if i.opens then 1 else 0 := by
  cases ho : i.opens with
  | true =>
    rw [answers_take_of_opens gauge ho]
    exact List.length_append
  | false =>
    have quiet := take_heedless (σ := σ) (ω := ω) gauge i
    rw [ho] at quiet
    rw [quiet.answers_eq]
    rfl

/-! ## Loads in two parts -/

theorem forM_take_heedless (gauge : Gauge) (items : List Item) :
    Heedless true (items.forM (take gauge) : LoadM σ (Overheard ω) Unit) := by
  refine .forM _ fun i => ?_
  cases hi : i.opens with
  | true => exact hi ▸ take_heedless gauge i
  | false => exact .polling (hi ▸ take_heedless gauge i)

theorem upTo_heedless (drop : Bool) (gauge : Gauge) (items : List Item) :
    Heedless true (upTo drop gauge items : LoadM σ (Overheard ω) Unit) :=
  .bind (openTables_heedless drop) fun _ => .bind (enter_heedless _) fun _ =>
    forM_take_heedless gauge items

omit [Watcher ω] in
theorem report_heedless (result : Except LoadFault Counts) :
    Heedless polls (do
      let report ← close result
      say (Journal.info report.text)
      return report : LoadM σ (Overheard ω) Report) :=
  .bind (close_heedless result) fun _ => .bind (.byWriter _) fun _ => .pure

theorem run_heedless (drop : Bool) (gauge : Gauge) (items : List Item) :
    Heedless true (run drop gauge items : LoadM σ (Overheard ω) Report) := by
  have taken := Heedless.bind (upTo_heedless (σ := σ) (ω := ω) drop gauge items)
    fun _ => drain_heedless
  rw [← consume_eq] at taken
  exact .bind taken.attempt fun result => report_heedless result

theorem answers_run (drop : Bool) (gauge : Gauge) (items : List Item) (l : Load σ (Overheard ω)) :
    (run drop gauge items l).2.watcher.answers =
      (upTo drop gauge items l).2.watcher.answers := by
  refine (Heedless.answers_bind (fun result => report_heedless result) l).trans ?_
  change ((openTables drop >>= fun _ => consume gauge items) l).2.watcher.answers = _
  rw [consume_eq]
  exact Heedless.answers_bind (fun _ => drain_heedless) l

/-! ## Polls and openings -/

theorem openings_cons (i : Item) (items : List Item) :
    openings (i :: items) = (if i.opens then 1 else 0) + openings items := by
  rw [openings, List.countP_cons, Nat.add_comm]
  rfl

theorem answers_of_taken {l l' : Load σ (Overheard ω)}
    (h : items.forM (take gauge) l = (.ok (), l')) :
    l'.watcher.answers.length = l.watcher.answers.length + openings items := by
  induction items generalizing l with
  | nil =>
    cases h
    rfl
  | cons i items ih =>
    have ht := answers_take gauge i l
    change (take gauge i >>= fun _ => items.forM (take gauge)) l = _ at h
    rw [bind_run] at h
    rcases hi : (take gauge i l : Except LoadFault Unit × Load σ (Overheard ω)) with ⟨e | u, t⟩
    all_goals rw [hi] at h ht
    · cases h
    · rw [ih h, openings_cons]
      simp only at ht
      omega

theorem taken_of_answers (gauge : Gauge) (items : List Item) {k : Nat} {l : Load σ (Overheard ω)}
    (hk : 1 ≤ k) (h : l.watcher.answers.length + k ≤ (items.forM (take gauge) l).2.watcher.answers.length) :
    ∃ before i after l', items = before ++ i :: after ∧ i.opens = true ∧
      openings before + 1 = k ∧ before.forM (take gauge) l = (.ok (), l') := by
  induction items generalizing l k with
  | nil =>
    change _ ≤ l.watcher.answers.length at h
    omega
  | cons i items ih =>
    have ht := answers_take gauge i l
    change _ ≤ ((take gauge i >>= fun _ => items.forM (take gauge)) l).2.watcher.answers.length at h
    rw [bind_run] at h
    by_cases hlast : i.opens = true ∧ k = 1
    · obtain ⟨ho, rfl⟩ := hlast
      exact ⟨[], i, items, l, rfl, ho, rfl, rfl⟩
    have hc := fun items => openings_cons i items
    have hn : (if i.opens then 1 else 0) < k := by
      split
      · next ho =>
        have : k ≠ 1 := fun h => hlast ⟨ho, h⟩
        omega
      · omega
    generalize (if i.opens then 1 else 0) = n at ht hc hn
    rcases hi : (take gauge i l : Except LoadFault Unit × Load σ (Overheard ω)) with ⟨e | u, t⟩
    all_goals
      rw [hi] at h ht
      simp only at h ht
    · omega
    · obtain ⟨before, j, after, l', rfl, ho, hk, hl⟩ := ih (k := k - n) (l := t) (by omega) (by omega)
      refine ⟨i :: before, j, after, l', rfl, ho, by rw [hc]; omega, ?_⟩
      change (take gauge i >>= fun _ => before.forM (take gauge)) l = _
      rw [bind_run, hi]
      exact hl

theorem upTo_nil_heedless (polls drop : Bool) (gauge : Gauge) :
    Heedless polls (upTo drop gauge [] : LoadM σ (Overheard ω) Unit) :=
  .bind (openTables_heedless drop) fun _ => .bind (enter_heedless _) fun _ => .pure

theorem answers_of_upTo {l l' : Load σ (Overheard ω)} (hl : l.watcher.answers = [])
    (h : upTo drop gauge items l = (.ok (), l')) :
    l'.watcher.answers.length = openings items := by
  have hq := (upTo_nil_heedless false drop gauge).answers_eq l
  rw [upTo_eq, bind_run] at h
  rcases hi : (upTo drop gauge [] l : Except LoadFault Unit × Load σ (Overheard ω)) with ⟨e | u, t⟩
  all_goals rw [hi] at h hq
  · cases h
  · rw [answers_of_taken h, hq, hl]
    exact Nat.zero_add _

theorem upTo_of_answers {k : Nat} {l : Load σ (Overheard ω)} (hk : 1 ≤ k)
    (hl : l.watcher.answers = [])
    (h : k ≤ (run drop gauge items l).2.watcher.answers.length) :
    ∃ before i after l', items = before ++ i :: after ∧ i.opens = true ∧
      openings before + 1 = k ∧ upTo drop gauge before l = (.ok (), l') := by
  have hq := (upTo_nil_heedless false drop gauge).answers_eq l
  rw [answers_run, upTo_eq, bind_run] at h
  rcases hi : (upTo drop gauge [] l : Except LoadFault Unit × Load σ (Overheard ω)) with ⟨e | u, t⟩
  all_goals
    rw [hi] at h hq
    simp only [hl] at h hq
  · rw [hq, List.length_nil] at h
    omega
  · obtain ⟨before, i, after, l', hitems, ho, hc, hb⟩ :=
      taken_of_answers gauge items (l := t) hk (by rw [hq, List.length_nil]; omega)
    refine ⟨before, i, after, l', hitems, ho, hc, ?_⟩
    rw [upTo_eq, bind_run, hi]
    exact hb

theorem answers_goOn_of_opens (ho : i.opens = true) (l : Load σ (Overheard ω)) :
    l.watcher.answers ++ [(Watcher.poll l.watcher.watcher).1] <+:
      (goOn gauge (i :: after) l).2.watcher.answers := by
  have ht := answers_take_of_opens gauge ho l
  have hrest : Heedless true (after.forM (take gauge) >>= fun _ => drain :
      LoadM σ (Overheard ω) Counts) := .bind (forM_take_heedless gauge after) fun _ => drain_heedless
  unfold goOn
  rw [Heedless.answers_bind fun result => report_heedless result]
  change _ <+: (((take gauge i >>= fun _ => after.forM (take gauge)) >>= fun _ => drain)
    l).2.watcher.answers
  rw [bind_assoc, bind_run]
  rcases hi : (take gauge i l : Except LoadFault Unit × Load σ (Overheard ω)) with ⟨e | u, t⟩
  all_goals rw [hi] at ht
  · exact ⟨[], (List.append_nil _).trans ht.symm⟩
  · obtain ⟨new, hnew, -⟩ := hrest.grows t
    rw [← ht]
    exact ⟨new, hnew.symm⟩

/-! ## The end of a cancelled load -/

theorem take_cancelled {l : Load σ ω} (ho : i.opens = true)
    (hw : (Watcher.poll l.watcher).1 = true) :
    Triple (· = l) (take gauge i : LoadM σ ω Unit) (fun _ _ => False)
      (fun f t => f = .cancelled ∧
        Standing l.writing.store l.assembler (Watcher.poll l.watcher).2 t) := by
  unfold Item.opens at ho
  split at ho
  · next e hi =>
    rw [take_of_opens hi ho]
    refine Triple.bind (Q := fun stop t => stop = true ∧
      Standing l.writing.store l.assembler (Watcher.poll l.watcher).2 t) (Triple.modifyGet ?_)
      fun stop => ?_
    · rintro _ rfl
      exact ⟨hw, rfl, rfl, rfl⟩
    · refine Triple.of_state fun t ⟨hstop, ht⟩ => ?_
      subst hstop
      refine Triple.bind (cancel_quits ?_) fun _ _ h => h.elim
      rintro _ ⟨_, lines, rfl, rfl⟩
      exact ⟨rfl, ht.store, ht.assembler, ht.watcher⟩
  · cases ho

theorem goOn_cancelled (gauge : Gauge) (after : List Item) {l : Load σ ω} (ho : i.opens = true)
    (hw : (Watcher.poll l.watcher).1 = true) :
    Triple (· = l) (goOn gauge (i :: after) : LoadM σ ω Report) (fun _ _ => False)
      (fun f t => f = .cancelled ∧
        Standing (takenBack l.writing.store) l.assembler (Watcher.poll l.watcher).2 t) := by
  refine Triple.bind (attempt_spec (S := fun result t => result = .error .cancelled ∧
    Standing l.writing.store l.assembler (Watcher.poll l.watcher).2 t)
    (Triple.bind (Q := fun _ _ => False) ?_ fun _ _ h => h.elim)) fun result => ?_
  · refine Triple.bind (Q := fun _ _ => False) ?_ fun _ _ h => h.elim
    exact (take_cancelled ho hw).weaken (fun _ h => h) (fun _ _ h => h)
      fun _ _ h => ⟨congrArg Except.error h.1, h.2⟩
  · refine Triple.of_state fun t ⟨hresult, ht⟩ => ?_
    subst hresult
    exact Triple.bind ((close_failed .cancelled).weaken (by rintro _ rfl; exact ht) (fun _ _ h => h)
      fun _ _ h => h) fun _ _ h => h.elim

theorem goOn_calls (gauge : Gauge) (items : List Item) (l : Load (Logged σ) ω) :
    l.writing.store.calls <+: (goOn gauge items l).2.writing.store.calls := by
  have : Nonempty σ := ⟨l.writing.store.store⟩
  let U := Unison.same ω gauge
  have follows : Follows (bond σ σ U Eq) (goOn gauge items) (goOn gauge items) := by
    refine (attempt_follows U (.bind ?_ fun _ => drain_follows U)).bind_in endsAlike_total
      fun result result' h => ?_
    · refine .forM (List.forall₂_same.mpr fun _ _ => ?_) fun _ _ hi => take_follows U hi
      exact Item.Alike.akin ⟨rfl, rfl⟩
    · exact .bind (close_follows U h) fun _ => .bind (sayAll_follows U _ _) fun _ => .pure
  obtain ⟨new, hc, -⟩ := follows.moves l
  exact ⟨new, hc.symm⟩

end Load

/-! ## Whole loads -/

section

variable {σ ω : Type} [Store σ] [Watcher ω]

/-- Of the first `k` answers none stops the load but the `k`-th, if there is one. -/
def StopsFirstAt (k : Nat) (answers : List Bool) : Prop :=
  answers.take k <+: List.replicate (k - 1) false ++ [true]

instance (k : Nat) (answers : List Bool) : Decidable (StopsFirstAt k answers) :=
  inferInstanceAs (Decidable (_ <+: _))

omit [Store σ] [Watcher ω] in
theorem StopsFirstAt.not_mem {k : Nat} {answers : List Bool} (h : StopsFirstAt k answers)
    (hk : answers.length < k) : true ∉ answers := by
  unfold StopsFirstAt at h
  rw [List.take_of_length_le (Nat.le_of_lt hk)] at h
  rcases List.prefix_concat_iff.mp h with he | hp
  · rw [he, List.length_append, List.length_replicate, List.length_singleton] at hk
    omega
  · exact fun ht => nomatch List.eq_of_mem_replicate (hp.subset ht)

omit [Store σ] [Watcher ω] in
theorem StopsFirstAt.eq {before answers : List Bool} {stop : Bool}
    (h : StopsFirstAt (before.length + 1) answers) (hb : before ++ [stop] <+: answers) :
    before = List.replicate before.length false ∧ stop = true := by
  unfold StopsFirstAt at h
  have hlen : (before ++ [stop]).length = before.length + 1 := List.length_append
  rw [← hlen, ← List.prefix_iff_eq_take.mp hb, hlen, Nat.add_sub_cancel] at h
  have := h.eq_of_length (by rw [hlen, List.length_append, List.length_replicate]; rfl)
  exact ⟨List.append_inj_left' this rfl, by simpa using List.append_inj_right' this rfl⟩

/-- The load with its watcher held back comes to the `k`-th item that opens a feature, and has not
asked its watcher about it. -/
inductive Pulls (i : Input) (s : σ) (base : String) (w : ω) (options : Options) (k : Nat) :
    Load (Logged σ) (Overheard ω) → Prop
  | intro {d : Dataset} {items : List Item} {lines : Journal} {before : List Item} {item : Item}
      {after : List Item} {l : Load (Logged σ) (Overheard ω)} (hd : Dataset.ofBase base = .ok d)
      (hi : i.items options.encoding = .ok items)
      (begins : ∀ v : Overheard ω, load i (Logged.mk s []) base v options = .ofEnd
        (Load.run options.dropExisting i.gauge items
          (.initial d i (Logged.mk s []) v options lines)))
      (hitems : items = before ++ item :: after) (ho : item.opens = true)
      (hk : openings before + 1 = k)
      (comes : Load.upTo options.dropExisting i.gauge before
        (.initial d i (Logged.mk s []) (.mk w [] true) options lines) = (.ok (), l)) :
      Pulls i s base w options k l

theorem rows_takenBack {view : σ → Memory} {refusing : Prop} (dr : Drives view refusing) (s : σ)
    (table : String) : (view (takenBack s)).rows table = (view s).rows table := by
  have rolledBack : (view (Store.ask .rollback s).2).rows table = (view s).rows table := by
    rcases dr .rollback s with ⟨-, hv⟩ | ⟨-, -, hv⟩
    · rw [hv]
      rfl
    · rw [hv]
  rw [← rolledBack, takenBack]
  generalize (Store.ask .rollback s).2 = s
  rcases dr .release s with ⟨-, hv⟩ | ⟨-, -, hv⟩
  · rw [hv]
    change (Memory.release (view s)).2.rows table = _
    unfold Memory.release
    split <;> rfl
  · rw [hv]

theorem load_hold_of_no_pull {i : Input} {s : σ} {base : String} {w : ω} {options : Options}
    {k : Nat} (hk : 1 ≤ k)
    (first : StopsFirstAt k
      (load i (Logged.mk s []) base (Overheard.mk w [] true) options).watcher.answers)
    (none : ∀ l, ¬ Pulls i s base w options k l) :
    let y := load i (Logged.mk s []) base (Overheard.mk w [] true) options
    load i (Logged.mk s []) base (Overheard.mk w [] false) options =
      { y with watcher := y.watcher.hold false } := by
  intro y
  cases hd : Dataset.ofBase base with
  | error f =>
    simp only [y, load, hd]
    rfl
  | ok d =>
    obtain rfl := Dataset.base_of_ofBase hd
    cases hi : i.items options.encoding with
    | error f =>
      simp only [y, load_of_unread hi]
      rfl
    | ok items =>
      obtain ⟨lines, begins⟩ := load_begins (σ := Logged σ) (ω := Overheard ω) hi d
      have hy : y = _ := begins (Logged.mk s []) (.mk w [] true)
      have hx := begins (Logged.mk s []) (Overheard.mk w [] false)
      -- With a `k`-th poll the load would have come to such an item.
      have few : y.watcher.answers.length < k := by
        by_contra hmany
        obtain ⟨before, item, after, l, hitems, ho, hc, comes⟩ :=
          Load.upTo_of_answers hk rfl (hy ▸ Nat.le_of_not_lt hmany)
        exact none l ⟨hd, hi, begins (Logged.mk s []), hitems, ho, hc, comes⟩
      have kept := first.not_mem few
      change true ∉ y.watcher.answers at kept
      rw [hy] at kept
      have alike := (Load.run_heedless options.dropExisting i.gauge items).alike
        (.initial d i (Logged.mk s []) (.mk w [] true) options lines) rfl kept
      rw [hx, hy]
      exact congrArg Outcome.ofEnd alike

theorem Pulls.calls {i : Input} {s : σ} {base : String} {w : ω} {options : Options} {k : Nat}
    {l : Load (Logged σ) (Overheard ω)} (h : Pulls i s base w options k l) :
    l.writing.store.calls <+:
      (load i (Logged.mk s []) base (Overheard.mk w [] true) options).store.calls := by
  obtain @⟨d, _, lines, before, item, after, _, hd, hi, begins, rfl, ho, rfl, comes⟩ := h
  rw [begins (.mk w [] true), Load.run_of_upTo comes]
  exact Load.goOn_calls i.gauge (item :: after) l

theorem Pulls.cancelled {i : Input} {s : σ} {base : String} {w : ω} {options : Options} {k : Nat}
    {l : Load (Logged σ) (Overheard ω)} (h : Pulls i s base w options k l)
    (first : StopsFirstAt k
      (load i (Logged.mk s []) base (Overheard.mk w [] true) options).watcher.answers) :
    let x := load i (Logged.mk s []) base (Overheard.mk w [] false) options
    x.result = .error .cancelled ∧ x.watcher.answers.length = k ∧
      x.counts = l.assembler.counts ∧ x.store = takenBack l.writing.store := by
  intro x
  obtain @⟨d, _, lines, before, item, after, _, hd, hi, begins, rfl, ho, rfl, comes⟩ := h
  have hl := Load.answers_of_upTo rfl comes
  rw [begins (.mk w [] true), Load.run_of_upTo comes, ← hl] at first
  obtain ⟨hfalse, hstop⟩ := first.eq (Load.answers_goOn_of_opens ho l)
  -- Up to the item both loads go the same way.
  have alike := (Load.upTo_heedless options.dropExisting i.gauge before).alike
    (.initial d i (Logged.mk s []) (.mk w [] true) options lines) rfl (by
      rw [comes, hfalse]
      exact fun ht => Bool.noConfusion (List.eq_of_mem_replicate ht))
  rw [comes] at alike
  have hx : x = .ofEnd (Load.goOn i.gauge (item :: after) (l.hold false)) :=
    (begins (.mk w [] false)).trans (congrArg Outcome.ofEnd (Load.run_of_upTo alike))
  have stops : (Watcher.poll (l.hold false).watcher).1 = true := by
    change ((Watcher.poll l.watcher.watcher).1 && !false) = true
    rw [hstop]
    rfl
  have hend := Load.goOn_cancelled i.gauge after ho stops _ rfl
  rcases hr : (Load.goOn i.gauge (item :: after) (l.hold false) :
    Except LoadFault Report × Load (Logged σ) (Overheard ω)) with ⟨f | report, t⟩
  all_goals rw [hr] at hend
  · obtain ⟨rfl, hstore, hassembler, hwatcher⟩ := hend
    rw [hr] at hx
    rw [hx]
    refine ⟨rfl, ?_, congrArg Assembler.counts hassembler, hstore⟩
    rw [Outcome.ofEnd, hwatcher, ← hl]
    exact List.length_append
  · exact hend.elim

/-- A load whose watcher stops it first at its `k`-th poll, next to the same load with the watcher
held back. If that does not come to a `k`-th item that opens a feature, both go the same way.
Otherwise the watcher is asked just so often, and what was done up to that item is taken back as
far as it is not final. -/
theorem load_stops_before_feature (i : Input) (s : σ) (base : String) (w : ω) (options : Options)
    (k : Nat) (hk : 1 ≤ k)
    (first : StopsFirstAt k
      (load i (Logged.mk s []) base (Overheard.mk w [] true) options).watcher.answers) :
    let y := load i (Logged.mk s []) base (Overheard.mk w [] true) options
    let x := load i (Logged.mk s []) base (Overheard.mk w [] false) options
    ((∀ l, ¬ Pulls i s base w options k l) → x = { y with watcher := y.watcher.hold false }) ∧
    ∀ l, Pulls i s base w options k l →
      x.result = .error .cancelled ∧ x.watcher.answers.length = k ∧
      x.counts = l.assembler.counts ∧
      (∃ undone released, x.store.calls =
        l.writing.store.calls ++ [⟨.rollback, undone⟩, ⟨.release, released⟩]) ∧
      l.writing.store.calls <+: y.store.calls ∧
      ∀ (view : σ → Memory) (refusing : Prop), Drives view refusing → ∀ table,
        (view x.store.store).rows table = (view l.writing.store.store).rows table := by
  intro y x
  refine ⟨load_hold_of_no_pull hk first, fun l h => ?_⟩
  obtain ⟨hresult, hanswers, hcounts, hstore⟩ := h.cancelled first
  refine ⟨hresult, hanswers, hcounts, ?_, h.calls, fun view refusing dr table => ?_⟩
  · rw [hstore]
    exact ⟨_, _, List.append_assoc _ _ _⟩
  · rw [hstore]
    exact rows_takenBack dr _ table

theorem load_stops_before_feature_of_second_way :
    let w : Recorder := { cancelAt := some 2 }
    let text := Input.ofText "<way id=\"1\"/><way id=\"2\"/>"
    let run held := load text (Logged.mk ({} : Memory) []) "t" (Overheard.mk w [] held)
      { batchSize := 1 }
    StopsFirstAt 2 (run true).watcher.answers ∧ (run false).watcher.answers = [false, true] ∧
    (run true).store.store.rows "t_way" = #[.way { id := 1 }, .way { id := 2 }] ∧
    (run false).store.store.rows "t_way" = #[.way { id := 1 }] ∧
    ∀ l, Pulls text ({} : Memory) "t" w { batchSize := 1 } 2 l →
      (run false).result = .error .cancelled ∧
      (run false).store.store.rows "t_way" = l.writing.store.store.rows "t_way" := by
  intro w text run
  have first : StopsFirstAt 2 (run true).watcher.answers := by decide +kernel
  refine ⟨first, by decide +kernel, by decide +kernel, by decide +kernel, fun l hl => ?_⟩
  obtain ⟨hresult, -, -, -, -, hrows⟩ := (load_stops_before_feature text ({} : Memory) "t" w
    { batchSize := 1 } 2 (by decide) first).2 l hl
  exact ⟨hresult, hrows id False drives_memory "t_way"⟩

end

end MapTables
