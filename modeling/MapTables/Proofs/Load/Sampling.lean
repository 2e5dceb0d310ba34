import MapTables.Proofs.Load.Beside
import MapTables.Proofs.Load.Halves
import MapTables.Store.Memory
import Mathlib.Data.List.Induction

/-!
# What a load tells of its progress

Once in an interval of closed features a load asks how much of its input was drawn, and tells the
share if there is an answer. A load that stored all tells a hundred in the end.
-/

namespace MapTables

/-! ## What is told -/

section

variable {α : Type}

def everyNth (n : Nat) (l : List α) : List α :=
  ((l.zipIdx 1).filter fun p => p.2 % n == 0).map Prod.fst

theorem everyNth_concat (n : Nat) (l : List α) (a : α) :
    everyNth n (l ++ [a]) = everyNth n l ++ if (l.length + 1) % n = 0 then [a] else [] := by
  rw [everyNth, List.zipIdx_append, List.filter_append, List.map_append, List.zipIdx_singleton,
    List.filter_singleton, Nat.add_comm 1]
  by_cases h : (l.length + 1) % n = 0
  · simp [h, everyNth]
  · simp [beq_false_of_ne h, h, everyNth]

theorem length_everyNth (n : Nat) (l : List α) : (everyNth n l).length = l.length / n := by
  induction l using List.reverseRecOn with
  | nil => exact (Nat.zero_div n).symm
  | append_singleton l a ih =>
    rw [everyNth_concat, List.length_append, ih, List.length_append, List.length_singleton,
      Nat.succ_div]
    simp only [Nat.dvd_iff_mod_eq_zero]
    split <;> rfl

end

def drawnAtClosings (items : List Item) : List Nat := (items.filter Item.closes).map Item.drawn

namespace Input

variable (i : Input) (average : Nat)

/-- Closed features between two questions. -/
def interval : Nat := max 1 (i.total / average / 100)

/-- What is answered in a load that closed features where so much was drawn. -/
def answers (drawn : List Nat) : List (Except String Nat) :=
  if i.total = 0 then []
  else (everyNth (i.interval average) drawn).zipIdx.map fun p => i.gauge.read p.2 p.1

/-- The share of the input before an offset, at most a hundred. -/
def share (offset : Nat) : Nat := min 100 (offset * 100 / i.total)

/-- The shares of the answers that are none of a failure. -/
def shares (answers : List (Except String Nat)) : List Nat :=
  (answers.filterMap Except.toOption).map i.share

theorem answers_nil : i.answers average [] = [] := by
  unfold answers
  split <;> rfl

theorem length_answers (drawn : List Nat) : (i.answers average drawn).length =
    if i.total = 0 then 0 else drawn.length / i.interval average := by
  unfold answers
  split
  · rfl
  · rw [List.length_map, List.length_zipIdx, length_everyNth]

theorem answers_concat (drawn : List Nat) (n : Nat) :
    i.answers average (drawn ++ [n]) = i.answers average drawn ++
      if i.total ≠ 0 ∧ (drawn.length + 1) % i.interval average = 0 then
        [i.gauge.read (i.answers average drawn).length n] else [] := by
  rw [length_answers]
  unfold answers
  by_cases ht : i.total = 0
  · simp [ht]
  · rw [if_neg ht, if_neg ht, if_neg ht, everyNth_concat]
    by_cases hn : (drawn.length + 1) % i.interval average = 0
    · rw [if_pos hn, if_pos ⟨ht, hn⟩, List.zipIdx_append, List.map_append, length_everyNth,
        Nat.zero_add]
      rfl
    · rw [if_neg hn, if_neg fun h => hn h.2, List.append_nil, List.append_nil]

theorem shares_append (xs ys : List (Except String Nat)) :
    i.shares (xs ++ ys) = i.shares xs ++ i.shares ys := by
  simp [shares]

theorem share_le (offset : Nat) : i.share offset ≤ 100 := Nat.min_le_left ..

theorem le_of_mem_shares {answers : List (Except String Nat)} {p : Nat}
    (h : p ∈ i.shares answers) : p ≤ 100 := by
  obtain ⟨offset, -, rfl⟩ := List.mem_map.mp h
  exact i.share_le offset

theorem share_mono {a b : Nat} (h : a ≤ b) : i.share a ≤ i.share b :=
  have hdiv : a * 100 / i.total ≤ b * 100 / i.total :=
    Nat.div_le_div_right (Nat.mul_le_mul_right 100 h)
  Nat.le_min.mpr ⟨i.share_le a, Nat.le_trans (Nat.min_le_right ..) hdiv⟩

theorem pairwise_shares {answers : List (Except String Nat)} {done : Prop} [Decidable done]
    (h : (answers.filterMap Except.toOption).Pairwise (· ≤ ·)) :
    (i.shares answers ++ if done then [100] else []).Pairwise (· ≤ ·) := by
  refine List.pairwise_append.mpr ⟨List.Pairwise.map _ (fun _ _ h => i.share_mono h) h, ?_, ?_⟩
  · split <;> simp
  · intro p hp q hq
    split at hq
    · rw [List.mem_singleton.mp hq]
      exact i.le_of_mem_shares hp
    · cases hq

/-- A share of 64 bits, worked out in 128. -/
theorem share_eq_toNat {total : BitVec 64} (h : i.total = total.toNat) (offset : BitVec 64) :
    i.share offset.toNat =
      min 100 (offset.setWidth 128 * 100 / total.setWidth 128).toNat := by
  have hoffset := offset.isLt
  have htotal := total.isLt
  have hundred : (100 : BitVec 128).toNat = 100 := rfl
  -- A hundred times a number of 64 bits fits into 128.
  rw [share, h, BitVec.toNat_udiv, BitVec.toNat_mul, BitVec.toNat_setWidth, BitVec.toNat_setWidth,
    hundred, Nat.mod_eq_of_lt (by omega : offset.toNat < _),
    Nat.mod_eq_of_lt (by omega : total.toNat < _),
    Nat.mod_eq_of_lt (by omega : offset.toNat * 100 < _)]

end Input

/-! ## Watchers and what they are told -/

structure Noted (ω : Type) where
  watcher : ω
  told : List Nat := []

namespace Noted

variable {ω : Type} [Watcher ω]

def report (v : Noted ω) (percent : Nat) : Noted ω × Journal :=
  let (watcher, lines) := Watcher.report v.watcher percent
  ({ watcher, told := v.told ++ [percent] }, lines)

def poll (v : Noted ω) : Bool × Noted ω :=
  let (stop, watcher) := Watcher.poll v.watcher
  (stop, { v with watcher })

instance : Watcher (Noted ω) := ⟨report, poll⟩

def unison (ω : Type) [Watcher ω] (gauge : Gauge) : Unison ω (Noted ω) gauge gauge Eq where
  agree m w m' v := m' = m ∧ v.watcher = w
  partner m w := ⟨m, ⟨w, []⟩, rfl, rfl⟩
  poll := by
    rintro m _ _ v ⟨rfl, rfl⟩
    exact ⟨rfl, rfl, rfl⟩
  count := by
    rintro m _ _ v n _ rfl ⟨rfl, rfl⟩
    unfold Monitor.featureClosed
    simp only
    split
    · split
      · exact ⟨rfl, rfl⟩
      · split <;> exact ⟨rfl, rfl⟩
    · exact ⟨rfl, rfl⟩
  finish := by
    rintro m _ _ v ⟨rfl, rfl⟩
    unfold Monitor.finish
    split <;> exact ⟨rfl, rfl⟩

end Noted

/-- The monitor and what the watcher was told, once features were closed where so much was
drawn. -/
structure Progressed {ω : Type} (i : Input) (average : Nat) (drawn : List Nat) (m : Monitor)
    (v : Noted ω) : Prop where
  total : m.total = i.total
  interval : m.interval = i.interval average
  closed : m.closed = drawn.length
  asked : m.asked = (i.answers average drawn).length
  told : v.told = i.shares (i.answers average drawn)

namespace Progressed

variable {ω : Type} {i : Input} {average : Nat} {drawn : List Nat} {m : Monitor} {v : Noted ω}

theorem initial (i : Input) (average : Nat) (w : ω) :
    Progressed i average [] (.ofTotal i.total average) (Noted.mk w []) :=
  ⟨rfl, rfl, rfl, by rw [i.answers_nil]; rfl, by rw [i.answers_nil]; rfl⟩

variable [Watcher ω]

theorem poll (h : Progressed i average drawn m v) :
    Progressed i average drawn m (Watcher.poll v).2 :=
  ⟨h.total, h.interval, h.closed, h.asked, h.told⟩

theorem count (h : Progressed i average drawn m v) (n : Nat) :
    Progressed i average (drawn ++ [n]) (m.featureClosed i.gauge n v).monitor
      (m.featureClosed i.gauge n v).watcher := by
  obtain ⟨ht, hi, hc, ha, hv⟩ := h
  have due : ({ m with closed := m.closed + 1 } : Monitor).due = true ↔
      i.total ≠ 0 ∧ (drawn.length + 1) % i.interval average = 0 := by
    simp [Monitor.due, ht, hi, hc]
  have length : m.closed + 1 = (drawn ++ [n]).length := by rw [hc, List.length_append]; rfl
  unfold Monitor.featureClosed
  simp only
  split
  · next hdue =>
    have more := i.answers_concat average drawn n
    rw [if_pos (due.mp hdue), ← ha] at more
    have asked : m.asked + 1 = (i.answers average (drawn ++ [n])).length := by
      rw [more, List.length_append, ha]
      rfl
    split
    · next reason hr =>
      -- The question counts, but there is nothing to tell.
      refine ⟨ht, hi, length, asked, ?_⟩
      rw [more, hr, Input.shares_append, ← hv]
      exact (List.append_nil _).symm
    · next offset hr =>
      have known : m.percent offset = some (i.share offset) := by
        rw [Monitor.percent, ht, if_neg (due.mp hdue).1]
        rfl
      simp only [known]
      refine ⟨ht, hi, length, asked, ?_⟩
      rw [more, hr, Input.shares_append, ← hv]
      rfl
  · next hdue =>
    have same := i.answers_concat average drawn n
    rw [if_neg fun h => hdue (due.mpr h), List.append_nil] at same
    exact ⟨ht, hi, length, by rw [same]; exact ha, by rw [same]; exact hv⟩

end Progressed

/-! ## What has no part in the progress -/

namespace Load

variable {σ ω α : Type} {R R' : Monitor → ω → Prop}

def Watched (R : Monitor → ω → Prop) (l : Load σ ω) : Prop := R l.monitor l.watcher

theorem byWriter_watched (x : WritingM σ α) :
    Triple (Watched R) (byWriter x) (fun _ => Watched R) (fun _ => Watched R) :=
  byWriter_keeps (fun _ _ h => h) x

theorem enter_watched (phase : Phase) :
    Triple (Watched R) (enter phase : LoadM σ ω Unit) (fun _ => Watched R) (fun _ => Watched R) :=
  enter_spec fun _ h _ => h

section

variable [Store σ]

theorem rollback_watched :
    Triple (Watched R) (rollback : LoadM σ ω Unit) (fun _ => Watched R) (fun _ => Watched R) := by
  refine Triple.bind (byWriter_watched _) fun a => ?_
  cases a with
  | ok _ => exact Triple.pure fun _ h => h
  | error f => exact byWriter_watched _

theorem settle_watched (result : Except LoadFault Counts) :
    Triple (Watched R) (settle result : LoadM σ ω _) (fun _ => Watched R) (fun _ => Watched R) := by
  cases result with
  | error f => exact Triple.bind rollback_watched fun _ => Triple.pure fun _ h => h
  | ok counts =>
    refine Triple.bind (byWriter_watched _) fun a => ?_
    cases a with
    | ok _ => exact Triple.pure fun _ h => h
    | error f => exact Triple.bind rollback_watched fun _ => Triple.pure fun _ h => h

theorem close_watched (result : Except LoadFault Counts) :
    Triple (Watched R) (close result : LoadM σ ω Report) (fun _ => Watched R)
      (fun _ => Watched R) := by
  refine Triple.bind (enter_watched _) fun _ => ?_
  refine Triple.bind (settle_watched result) fun settled => ?_
  refine Triple.bind (byWriter_watched _) fun released => ?_
  cases settled with
  | ok counts =>
    cases released with
    | ok _ => exact Triple.get_bind fun l hl => Triple.pure fun _ h => h ▸ hl
    | error f => exact Triple.throw fun _ h => h
  | error fault =>
    cases released with
    | ok _ => exact Triple.throw fun _ h => h
    | error f => exact Triple.bind (byWriter_watched _) fun _ => Triple.throw fun _ h => h

theorem conclude_watched (result : Except LoadFault Counts) {l : Load σ ω} (h : Watched R l) :
    Watched R (conclude result l).2 := by
  have triple : Triple (Watched R) (conclude result : LoadM σ ω Report) (fun _ => Watched R)
      (fun _ => Watched R) :=
    Triple.bind (close_watched result) fun report => Triple.bind (byWriter_watched _) fun _ =>
      Triple.pure fun _ h => h
  exact (triple l h).result (P := fun _ => Watched R)

variable [Watcher ω]

theorem upTo_nil_watched (drop : Bool) (gauge : Gauge) :
    Triple (Watched R) (upTo drop gauge [] : LoadM σ ω Unit) (fun _ => Watched R)
      (fun _ => Watched R) :=
  Triple.bind (openTables_keeps (fun r fault _ => byWriter_watched (Writing.ask r fault)) drop)
    fun _ => Triple.bind (enter_watched _) fun _ => Triple.pure fun _ h => h

omit [Store σ] in
theorem count_watched {E : LoadFault → Load σ ω → Prop} {gauge : Gauge} {drawn : Nat}
    (counted : ∀ m w, R m w → R' (m.featureClosed gauge drawn w).monitor
      (m.featureClosed gauge drawn w).watcher) :
    Triple (Watched R) (count gauge drawn) (fun _ => Watched R') E :=
  fun _ hl => counted _ _ hl

omit [Store σ] in
theorem countLast_watched {E : LoadFault → Load σ ω → Prop}
    (finished : ∀ m w, R m w → R' m (m.finish w).1) :
    Triple (Watched R) countLast (fun _ => Watched R') E :=
  fun _ hl => finished _ _ hl

theorem drain_watched (finished : ∀ m w, R m w → R' m (m.finish w).1) :
    Triple (Watched R) (drain : LoadM σ ω Counts) (fun _ => Watched R') (fun _ => Watched R) := by
  refine Triple.get_bind fun l hl => ?_
  split
  · exact Triple.throw fun _ h => h ▸ hl
  · refine Triple.bind ((enter_watched _).weaken (by rintro _ rfl; exact hl) (fun _ _ h => h)
      fun _ _ h => h) fun _ => Triple.bind (byWriter_watched _) fun _ => ?_
    exact Triple.bind (countLast_watched finished) fun _ => Triple.pure fun _ h => h

/-- The gauge is asked, and the watcher told, where a feature was closed and the writer was
polled. -/
theorem take_watched {gauge : Gauge} {i : Item} (polled : ∀ m w, R m w → R m (Watcher.poll w).2)
    (counted : i.closes = true → ∀ m w, R m w → R' (m.featureClosed gauge i.drawn w).monitor
      (m.featureClosed gauge i.drawn w).watcher)
    (kept : i.closes = false → ∀ m w, R m w → R' m w) :
    Triple (Watched R) (take gauge i : LoadM σ ω Unit) (fun _ => Watched R')
      (fun _ => Watched R) := by
  unfold take
  split
  · exact Triple.throw fun _ h => h
  · next e hi =>
    have closes : i.closes = e.endsFeature := by rw [Item.closes, hi]
    refine takeEvent_polled (Triple.modifyGet fun l h => polled _ _ h) (cancel_quits ?_) ?_
    · rintro _ ⟨l, lines, h, rfl⟩
      exact h
    refine passEvent_spec (S := fun change l => change.closes = i.closes ∧ Watched R l)
      (assemble_ends (fun l f h _ => h) fun l s lines h hs => ?_) ?_ fun change l hc h => ?_
    · exact ⟨(Assembler.takes_of_step hs).change_closes.trans closes.symm, h⟩
    · intro k l ⟨hc, hl⟩
      exact Triple.bind (byWriter_watched _) (fun _ => count_watched (counted hc.symm)) l hl
    · exact kept (h.1.symm.trans hc) _ _ h.2

def Counted (n : Nat) (l : Load σ ω) : Prop := l.assembler.counts.features = n

omit [Watcher ω] [Store σ] in
theorem byWriter_counted {n : Nat} (x : WritingM σ α) :
    Triple (Counted n) (byWriter x : LoadM σ ω α) (fun _ => Counted n) (fun _ => Counted n) :=
  byWriter_keeps (fun _ _ h => h) x

theorem take_counted {n : Nat} (gauge : Gauge) (i : Item) :
    Triple (Counted n) (take gauge i : LoadM σ ω Unit)
      (fun _ => Counted (n + if i.closes then 1 else 0)) (fun _ _ => True) := by
  have still {n : Nat} (l l' : Load σ ω) (h : Counted n l) (hs : Still l l') : Counted n l' := by
    rw [Counted, hs.assembler]
    exact h
  unfold take
  split
  · exact Triple.throw fun _ _ => trivial
  · next e hi =>
    have closes : i.closes = e.endsFeature := by rw [Item.closes, hi]
    refine takeEvent_still still (cancel_quits fun _ _ => trivial) ?_
    refine passEvent_spec (S := fun _ => Counted (n + if i.closes then 1 else 0))
      (assemble_ends (fun _ _ _ _ => trivial) fun l s lines h hs => ?_) (fun k => ?_)
      fun _ _ _ h => h
    · have ht := Assembler.takes_of_step hs
      rw [closes, ← ht.change_closes, ← h]
      exact ht.features_eq
    · exact Triple.bind ((byWriter_counted _).weaken (fun _ h => h) (fun _ _ h => h)
        fun _ _ _ => trivial) fun _ => count_still still gauge _

theorem upTo_counted (drop : Bool) (gauge : Gauge) (items : List Item) :
    Triple (Counted 0 : Load σ ω → Prop) (upTo drop gauge items)
      (fun _ => Counted (items.filter Item.closes).length) (fun _ _ => True) := by
  refine upTo_spec (I := fun items => Counted (items.filter Item.closes).length) ?_
    fun before i => ?_
  · refine Triple.bind ((openTables_keeps (fun r fault _ => byWriter_counted (Writing.ask r fault))
      drop).weaken (fun _ h => h) (fun _ _ h => h) fun _ _ _ => trivial) fun _ => ?_
    exact Triple.bind (enter_spec fun _ h _ => h) fun _ => Triple.pure fun _ h => h
  · refine (take_counted gauge i).weaken (fun _ h => h) (fun _ l h => ?_) fun _ _ h => h
    rw [List.filter_append, List.length_append, List.filter_singleton]
    cases hc : i.closes with
    | true => rw [hc] at h; exact h
    | false => rw [hc] at h; exact h

end

end Load

namespace Load

variable {σ ω : Type} [Store σ] [Watcher ω] {i : Input} {average : Nat}

abbrev ProgressedTo (i : Input) (average : Nat) (items : List Item) (l : Load σ (Noted ω)) : Prop :=
  Watched (Progressed i average (drawnAtClosings items)) l

theorem take_progressed (before : List Item) (item : Item) :
    Triple (ProgressedTo i average before)
      (take i.gauge item : LoadM σ (Noted ω) Unit)
      (fun _ => ProgressedTo i average (before ++ [item]))
      (fun _ => ProgressedTo i average before) := by
  unfold ProgressedTo drawnAtClosings
  rw [List.filter_append, List.map_append]
  refine take_watched (fun _ _ h => h.poll) (fun hc m v h => ?_) fun hc m v h => ?_
  · rw [List.filter_singleton, hc]
    exact h.count item.drawn
  · rw [List.filter_singleton, hc]
    simpa using h

theorem upTo_progressed (drop : Bool) (items : List Item) :
    Triple (ProgressedTo i average [])
      (upTo drop i.gauge items : LoadM σ (Noted ω) Unit) (fun _ => ProgressedTo i average items)
      (fun _ _ => True) := by
  refine upTo_spec (I := ProgressedTo i average) ?_ fun before item => ?_
  · exact (upTo_nil_watched drop i.gauge).weaken (fun _ h => h) (fun _ _ h => h)
      fun _ _ _ => trivial
  · exact (take_progressed before item).weaken (fun _ h => h) (fun _ _ h => h) fun _ _ _ => trivial

/-- So much was asked and told. -/
def Tells (asked : Nat) (told : List Nat) (l : Load σ (Noted ω)) : Prop :=
  Watched (fun m v => m.asked = asked ∧ v.told = told) l

omit [Store σ] [Watcher ω] in
theorem ProgressedTo.tells {items : List Item} {l : Load σ (Noted ω)}
    (h : ProgressedTo i average items l) :
    Tells (i.answers average (drawnAtClosings items)).length
      (i.shares (i.answers average (drawnAtClosings items))) l :=
  ⟨Progressed.asked h, Progressed.told h⟩

theorem drain_progressed {items : List Item} :
    Triple (ProgressedTo i average items) (drain : LoadM σ (Noted ω) Counts)
      (fun _ => Tells (i.answers average (drawnAtClosings items)).length
        (i.shares (i.answers average (drawnAtClosings items)) ++
          if i.total ≠ 0 then [100] else []))
      (fun _ => ProgressedTo i average items) := by
  refine drain_watched fun m v h => ⟨h.asked, ?_⟩
  unfold Monitor.finish
  rw [h.total, ← h.told]
  by_cases ht : i.total = 0
  · rw [if_pos ht, if_neg (not_not_intro ht), List.append_nil]
  · rw [if_neg ht, if_pos ht]
    rfl

theorem tells_of_unopened {drop : Bool} {items : List Item} {start l : Load σ (Noted ω)}
    {f : LoadFault} (h : ProgressedTo i average [] start)
    (unopened : upTo drop i.gauge [] start = (.error f, l)) :
    Tells 0 [] (run drop i.gauge items start).2 := by
  have stuck := upTo_nil_watched drop i.gauge start h
  rw [unopened] at stuck
  rw [run_of_unopened unopened]
  have tells := conclude_watched (.error f) (ProgressedTo.tells stuck)
  rw [show drawnAtClosings [] = [] from rfl, i.answers_nil] at tells
  exact tells

theorem Furthest.tells {drop : Bool} {items front rest : List Item} {start l : Load σ (Noted ω)}
    (h : Furthest drop i.gauge items start front rest l) (hl : ProgressedTo i average front l) :
    Tells (i.answers average (drawnAtClosings front)).length
      (i.shares (i.answers average (drawnAtClosings front)) ++
        if i.total ≠ 0 ∧ rest = [] ∧ (drain l).1.isOk then [100] else [])
      (run drop i.gauge items start).2 := by
  by_cases hr : rest = []
  · subst hr
    rw [h.run_of_drain]
    have drained := drain_progressed l hl
    rcases hd : (drain l : Except LoadFault Counts × Load σ (Noted ω)) with ⟨f | counts, t⟩
    all_goals rw [hd] at drained
    · rw [if_neg fun hok => Bool.noConfusion hok.2.2, List.append_nil]
      exact conclude_watched _ drained.tells
    · rw [if_congr (and_iff_left ⟨rfl, rfl⟩) rfl rfl]
      exact conclude_watched _ drained
  · obtain ⟨item, after, f, t, rfl, ht, hrun⟩ := h.run_of_rest hr
    rw [hrun, if_neg fun hok => hr hok.2.1, List.append_nil]
    have stuck := take_progressed front item l hl
    rw [ht] at stuck
    exact conclude_watched _ stuck.tells

end Load

/-! ## Whole loads -/

variable {σ ω : Type}

section

variable [Store σ] [Watcher ω]

/-- What a load asks and tells at each point that it comes to and in its end, if it takes the items
in `front` and is in state `l` then. -/
structure Measured (i : Input) (options : Options) (start : Load σ (Noted ω))
    (front rest : List Item) (l : Load σ (Noted ω)) (x : Outcome σ (Noted ω)) : Prop where
  points : ∀ before t, before <+: front →
    Load.upTo options.dropExisting i.gauge before start = (.ok (), t) →
    t.assembler.counts.features = (before.filter Item.closes).length ∧
    t.monitor.asked = (if i.total = 0 then 0
      else t.assembler.counts.features / max 1 (i.total / options.averageFeature / 100)) ∧
    t.watcher.told = i.shares (i.answers options.averageFeature (drawnAtClosings before))
  asked : x.asked = l.monitor.asked
  told : x.watcher.told = l.watcher.told ++
    if i.total ≠ 0 ∧ rest = [] ∧ (Load.drain l).1.isOk then [100] else []
  /-- What is told never falls as long as the answers do not. -/
  rises : ((i.answers options.averageFeature (drawnAtClosings front)).filterMap
    Except.toOption).Pairwise (· ≤ ·) → x.watcher.told.Pairwise (· ≤ ·)

theorem Load.Furthest.measured {i : Input} {options : Options} {items front rest : List Item}
    {start l : Load σ (Noted ω)}
    (h : Load.Furthest options.dropExisting i.gauge items start front rest l)
    (progressed : Load.ProgressedTo i options.averageFeature [] start)
    (counted : Load.Counted 0 start) :
    Measured i options start front rest l
      (.ofEnd (Load.run options.dropExisting i.gauge items start)) := by
  have points (before : List Item) (t : Load σ (Noted ω))
      (ht : Load.upTo options.dropExisting i.gauge before start = (.ok (), t)) :
      Load.ProgressedTo i options.averageFeature before t ∧
        Load.Counted (before.filter Item.closes).length t := by
    have at' := Load.upTo_progressed options.dropExisting before start progressed
    have counted' := Load.upTo_counted options.dropExisting i.gauge before start counted
    rw [ht] at at' counted'
    exact ⟨at', counted'⟩
  obtain ⟨hl, -⟩ := points front l h.comes
  have last := h.tells hl
  refine ⟨fun before t _ ht => ?_, ?_, ?_, fun hrises => ?_⟩
  · obtain ⟨hp, hc⟩ := points before t ht
    refine ⟨hc, ?_, Progressed.told hp⟩
    rw [Progressed.asked hp, Input.length_answers, show t.assembler.counts.features = _ from hc,
      drawnAtClosings, List.length_map]
    rfl
  · exact last.1.trans (Progressed.asked hl).symm
  · exact last.2.trans (by rw [show l.watcher.told = _ from Progressed.told hl])
  · have told : (Outcome.ofEnd (Load.run options.dropExisting i.gauge items start)).watcher.told =
      _ := last.2
    rw [told]
    exact i.pairwise_shares hrises

theorem Measured.quiet {i : Input} {options : Options} {start l : Load σ (Noted ω)}
    {front rest : List Item} {x : Outcome σ (Noted ω)}
    (h : Measured i options start front rest l x)
    (comes : Load.upTo options.dropExisting i.gauge front start = (.ok (), l)) (ht : i.total = 0) :
    x.asked = 0 ∧ x.watcher.told = [] := by
  obtain ⟨-, asked, told⟩ := h.points front l (List.prefix_refl front) comes
  rw [if_pos ht] at asked
  refine ⟨h.asked.trans asked, ?_⟩
  rw [h.told, told, Input.answers, if_pos ht, if_neg fun hn => hn.1 ht]
  rfl

theorem Measured.told_le {i : Input} {options : Options} {start l : Load σ (Noted ω)}
    {front rest : List Item} {x : Outcome σ (Noted ω)}
    (h : Measured i options start front rest l x)
    (comes : Load.upTo options.dropExisting i.gauge front start = (.ok (), l)) :
    ∀ p ∈ x.watcher.told, p ≤ 100 := by
  obtain ⟨-, -, told⟩ := h.points front l (List.prefix_refl front) comes
  intro p hp
  rw [h.told, told, List.mem_append] at hp
  rcases hp with hp | hp
  · exact i.le_of_mem_shares hp
  · split at hp
    · exact Nat.le_of_eq (List.mem_singleton.mp hp)
    · cases hp

/-- What a load tells of its progress, any watcher is told. Nothing is asked or told about an input
of unknown length, and nothing before the load takes items. From there on it is measured. -/
theorem load_tells_progress (i : Input) (s : σ) (base : String) (w : ω) (options : Options) :
    let x := load i s base (Noted.mk w []) options
    let plain := load i s base w options
    (x.Alike plain ∧ plain.store = x.store ∧ plain.watcher = x.watcher.watcher ∧
      plain.asked = x.asked) ∧
    (i.total = 0 → x.asked = 0 ∧ x.watcher.told = []) ∧
    (∀ p ∈ x.watcher.told, p ≤ 100) ∧
    (∀ total offset : BitVec 64, i.total = total.toNat → i.share offset.toNat =
      min 100 (offset.setWidth 128 * 100 / total.setWidth 128).toNat) ∧
    ((∃ f, x = { result := .error f, store := s, watcher := ⟨w, []⟩ }) ∨
      ∃ d items lines, Dataset.ofBase base = .ok d ∧ i.items options.encoding = .ok items ∧
        let start := Load.initial d i s (Noted.mk w []) options lines
        x = .ofEnd (Load.run options.dropExisting i.gauge items start) ∧
        ((∃ f l, Load.upTo options.dropExisting i.gauge [] start = (.error f, l) ∧
            x.asked = 0 ∧ x.watcher.told = []) ∨
          ∃ front rest l, Load.Furthest options.dropExisting i.gauge items start front rest l ∧
            Measured i options start front rest l x)) := by
  intro x plain
  -- To note what a watcher is told changes nothing else.
  have alike : x.Alike plain ∧ plain.store = x.store ∧ plain.watcher = x.watcher.watcher ∧
      plain.asked = x.asked := by
    have start (m : Monitor) : (Noted.unison ω i.gauge).agree m w m (.mk w []) := ⟨rfl, rfl⟩
    obtain ⟨result, counts, store, m, m', hm, hm', rfl, hwatcher⟩ := load_akin (F := Eq)
      (Noted.unison ω i.gauge) (i.alike_self options.encoding).akin (.refl options) (start _) s base
    exact ⟨⟨result.eq.symm, counts.symm⟩, store.symm, hwatcher.symm, hm.symm.trans hm'⟩
  have wide (total offset : BitVec 64) (h : i.total = total.toNat) := i.share_eq_toNat h offset
  have none (told : x.watcher.told = []) : ∀ p ∈ x.watcher.told, p ≤ 100 := by
    rw [told]
    exact fun _ => nofun
  rcases load_cases i s base (Noted.mk w []) options with
    ⟨f, hx⟩ | ⟨d, items, lines, hd, hi, hx, hl⟩
  · have told : x.watcher.told = [] := by rw [show x = _ from hx]
    have asked : x.asked = 0 := by rw [show x = _ from hx]
    exact ⟨alike, fun _ => ⟨asked, told⟩, none told, wide, Or.inl ⟨f, hx⟩⟩
  have progressed : Load.ProgressedTo i options.averageFeature []
      (.initial d i s (Noted.mk w []) options lines) := .initial i options.averageFeature w
  rcases hl with ⟨f, l, unopened⟩ | ⟨front, rest, l, furthest⟩
  · have tells : Load.Tells 0 [] (Load.run options.dropExisting i.gauge items _).2 :=
      Load.tells_of_unopened progressed unopened
    have told : x.watcher.told = [] := by rw [show x = _ from hx]; exact tells.2
    have asked : x.asked = 0 := by rw [show x = _ from hx]; exact tells.1
    exact ⟨alike, fun _ => ⟨asked, told⟩, none told, wide,
      Or.inr ⟨d, items, lines, hd, hi, hx, Or.inl ⟨f, l, unopened, asked, told⟩⟩⟩
  · have measured : Measured i options _ front rest l x :=
      hx ▸ furthest.measured progressed rfl
    exact ⟨alike, measured.quiet furthest.comes, measured.told_le furthest.comes,
      wide, Or.inr ⟨d, items, lines, hd, hi, hx, Or.inr ⟨front, rest, l, furthest, measured⟩⟩⟩

/-- Of six ways every second one is asked about. One question fails, and the last answer lies beyond
the end of the input. -/
theorem load_tells_progress_of_six_ways :
    let text := { Input.ofText (String.join (List.replicate 6 "<way id=\"1\"/>")) with
      total := 1000, gauge := .ofList [some 300, none, some 2000] }
    let options : Options := { averageFeature := 5 }
    let x := load text ({} : Memory) "t" (Noted.mk ({} : Recorder) []) options
    let plain := load text ({} : Memory) "t" ({} : Recorder) options
    x.asked = 3 ∧ x.watcher.told = [30, 100, 100] ∧ plain.watcher = x.watcher.watcher ∧
      x.watcher.told.Pairwise (· ≤ ·) := by
  intro text options x plain
  have asked : x.asked = 3 := by decide +kernel
  obtain ⟨⟨-, -, watcher, -⟩, -, -, -, cases⟩ :=
    load_tells_progress text ({} : Memory) "t" ({} : Recorder) options
  refine ⟨asked, by decide +kernel, watcher, ?_⟩
  -- A load that asks takes items.
  rcases cases with ⟨f, hx⟩ | ⟨d, items, lines, -, -, hx, ⟨f, l, -, none, -⟩ |
    ⟨front, rest, l, furthest, measured⟩⟩
  · rw [show x = _ from hx] at asked
    cases asked
  · rw [show x.asked = 0 from none] at asked
    cases asked
  · obtain ⟨features, questions, -⟩ :=
      measured.points front l (List.prefix_refl front) furthest.comes
    have known : text.total ≠ 0 := by decide
    have interval : text.interval options.averageFeature = 2 := by decide
    change _ = if _ then _ else _ / text.interval options.averageFeature at questions
    rw [← measured.asked, features, asked, if_neg known, interval] at questions
    have three : (everyNth 2 (drawnAtClosings front)).length = 3 := by
      rw [length_everyNth, drawnAtClosings, List.length_map]
      exact questions.symm
    obtain ⟨a, b, c, h⟩ := List.length_eq_three.mp three
    apply measured.rises
    have answers : text.answers options.averageFeature (drawnAtClosings front) =
        [.ok 300, .error "no position", .ok 2000] := by
      rw [Input.answers, if_neg known, interval, h]
      rfl
    rw [answers]
    decide

end

end MapTables
