import MapTables.Proofs.Load.Parts
import MapTables.Proofs.Load.Plain

/-!
# Loads in two parts

A load takes items up to one that it cannot take, or to the last one. What it does after that
follows from how far it came.
-/

namespace MapTables

def Item.closes (i : Item) : Bool :=
  match i.what with
  | .ok e => e.endsFeature
  | .error _ => false

/-- The store after it took back what is not final and was let go. -/
def takenBack {σ : Type} [Store σ] (s : σ) : σ := (Store.ask .release (Store.ask .rollback s).2).2

namespace Load

variable {σ ω : Type}

section

variable [Watcher ω] [Store σ] {gauge : Gauge} {drop : Bool} {i : Item}
  {before after items : List Item}

/-- A load up to what comes after these items. -/
def upTo (drop : Bool) (gauge : Gauge) (before : List Item) : LoadM σ ω Unit := do
  openTables drop
  enter .reading
  before.forM (take gauge)

def goOn (gauge : Gauge) (after : List Item) : LoadM σ ω Report := do
  let result ← attempt do
    after.forM (take gauge)
    drain
  let report ← close result
  say (Journal.info report.text)
  return report

theorem run_of_upTo {s l : Load σ ω} (h : upTo drop gauge before s = (.ok (), l)) :
    run drop gauge (before ++ after) s = goOn gauge after l := by
  have hx : (openTables drop >>= fun _ => consume gauge (before ++ after) : LoadM σ ω Counts) =
      upTo drop gauge before >>= fun _ => after.forM (take gauge) >>= fun _ => drain := by
    simp only [upTo, consume, List.forM_eq_forM, List.forM_append, bind_assoc]
  unfold run goOn
  rw [hx, bind_run, bind_run]
  unfold attempt
  simp only [bind_run, h]

theorem upTo_eq (drop : Bool) (gauge : Gauge) (items : List Item) :
    (upTo drop gauge items : LoadM σ ω Unit) =
      upTo drop gauge [] >>= fun _ => items.forM (take gauge) := by
  simp only [upTo, bind_assoc]
  rfl

theorem consume_eq (drop : Bool) (gauge : Gauge) (items : List Item) :
    (openTables drop >>= fun _ => consume gauge items : LoadM σ ω Counts) =
      upTo drop gauge items >>= fun _ => drain := by
  simp only [upTo, consume, bind_assoc]

theorem upTo_append (drop : Bool) (gauge : Gauge) (before after : List Item) :
    (upTo drop gauge (before ++ after) : LoadM σ ω Unit) =
      upTo drop gauge before >>= fun _ => after.forM (take gauge) := by
  simp only [upTo, List.forM_eq_forM, List.forM_append, bind_assoc]

/-- What holds of the items so far holds of each point that a load comes to. -/
theorem upTo_spec {I : List Item → Load σ ω → Prop} {P : Load σ ω → Prop}
    {E : LoadFault → Load σ ω → Prop}
    (opened : Triple P (upTo drop gauge []) (fun _ => I []) E)
    (taken : ∀ before i, Triple (I before) (take gauge i) (fun _ => I (before ++ [i])) E) :
    Triple P (upTo drop gauge items) (fun _ => I items) E := by
  rw [upTo_eq]
  exact Triple.bind opened fun _ => Triple.forM items fun before i _ _ => taken before i

/-! ## Making the tables -/

omit [Watcher ω] in
theorem openTables_keeps {P : Load σ ω → Prop}
    (asked : ∀ (r : Request) (fault : StoreFault → LoadFault), r.method ≠ .insert →
      Triple P (ask r fault) (fun _ => P) (fun _ => P)) (drop : Bool) :
    Triple P (openTables drop : LoadM σ ω Unit) (fun _ => P) (fun _ => P) := by
  have started : Triple P (dataset : LoadM σ ω Dataset) (fun _ => P) (fun _ => P) := fun _ h => h
  have dropped : Triple P (dropTables : LoadM σ ω Unit) (fun _ => P) (fun _ => P) :=
    Triple.bind started fun d => Triple.forM (I := fun _ => P) _ fun _ table _ _ =>
      asked (.dropTable table) _ nofun
  have checked : Triple P (checkTables : LoadM σ ω Unit) (fun _ => P) (fun _ => P) := by
    refine Triple.bind started fun d => Triple.forM (I := fun _ => P) _ fun _ table _ _ => ?_
    refine Triple.bind (asked (.tableExists table) _ nofun) fun found => ?_
    cases found with
    | true => exact Triple.throw fun _ h => h
    | false => exact Triple.pure fun _ h => h
  have created : Triple P (createTables : LoadM σ ω Unit) (fun _ => P) (fun _ => P) :=
    Triple.bind started fun d => Triple.forM (I := fun _ => P) _ fun _ t _ _ =>
      asked (.createTable t.1 t.2) _ nofun
  have made := Triple.bind checked fun _ => Triple.bind created fun _ =>
    asked .beginTransaction (.refused .beginTransaction) nofun
  cases drop with
  | true => exact Triple.bind dropped fun _ => made
  | false => exact made

/-! ## How far a load comes -/

/-- A load takes the items in `front` and is in state `l` then. Of the others it cannot take the
first. -/
structure Furthest (drop : Bool) (gauge : Gauge) (items : List Item) (start : Load σ ω)
    (front rest : List Item) (l : Load σ ω) : Prop where
  parts : items = front ++ rest
  comes : upTo drop gauge front start = (.ok (), l)
  stuck : ∀ i after, rest = i :: after → ∃ f t, take gauge i l = (.error f, t)

theorem exists_furthest {start opened : Load σ ω}
    (h : upTo drop gauge [] start = (.ok (), opened)) (items : List Item) :
    ∃ front rest l, Furthest drop gauge items start front rest l := by
  suffices ∀ front rest l, items = front ++ rest → upTo drop gauge front start = (.ok (), l) →
      ∃ front rest l, Furthest drop gauge items start front rest l from this [] items opened rfl h
  -- On the items that are left, from any point that the load comes to.
  intro front rest
  induction rest generalizing front with
  | nil => exact fun l parts comes => ⟨front, [], l, parts, comes, nofun⟩
  | cons i rest ih =>
    intro l parts comes
    rcases ht : (take gauge i l : Except LoadFault Unit × Load σ ω) with ⟨f | _, t⟩
    · refine ⟨front, i :: rest, l, parts, comes, ?_⟩
      rintro _ _ ⟨⟩
      exact ⟨f, t, ht⟩
    · refine ih (front ++ [i]) t (by rw [parts, List.append_assoc]; rfl) ?_
      rw [upTo_append, bind_run, comes]
      change (take gauge i >>= fun _ => pure ()) l = _
      rw [bind_run, ht]
      rfl

end

/-! ## What is left to do -/

section

variable [Store σ]

/-- The end of a load, from what its document came to. -/
def conclude (result : Except LoadFault Counts) : LoadM σ ω Report := do
  let report ← close result
  say (Journal.info report.text)
  return report

structure Standing (s : σ) (a : Assembler) (v : ω) (l : Load σ ω) : Prop where
  store : l.writing.store = s
  assembler : l.assembler = a
  watcher : l.watcher = v

variable {s : σ} {a : Assembler} {v : ω}

theorem reply_standing (r : Request) :
    Triple (Standing s a v) (reply r : LoadM σ ω (Except StoreFault r.Answer))
      (fun _ => Standing (Store.ask r s).2 a v) (fun _ _ => False) := by
  refine byWriter_spec fun l hl => ?_
  obtain ⟨rfl, rfl, rfl⟩ := hl
  exact ⟨rfl, rfl, rfl⟩

theorem close_failed (fault : LoadFault) :
    Triple (Standing s a v) (close (.error fault) : LoadM σ ω Report) (fun _ _ => False)
      (fun f l => f = fault ∧ Standing (takenBack s) a v l) := by
  unfold close
  refine Triple.bind (Q := fun _ => Standing s a v) (enter_spec fun l hl _ => ?_) fun _ => ?_
  · exact ⟨hl.store, hl.assembler, hl.watcher⟩
  refine Triple.bind (Q := fun result l => result = .error fault ∧
    Standing (Store.ask .rollback s).2 a v l) ?_ fun settled => ?_
  · refine Triple.bind (Q := fun _ => Standing (Store.ask .rollback s).2 a v) ?_
      fun _ => Triple.pure fun _ h => ⟨rfl, h⟩
    refine Triple.bind ((reply_standing .rollback).weaken (fun _ h => h) (fun _ _ h => h)
      fun _ _ h => h.elim) fun b => ?_
    cases b with
    | ok _ => exact Triple.pure fun _ h => h
    | error f => exact sayAll_spec fun l h _ => ⟨h.store, h.assembler, h.watcher⟩
  refine Triple.of_state fun l ⟨hsettled, hl⟩ => ?_
  subst hsettled
  refine Triple.bind ((reply_standing .release).weaken (by rintro _ rfl; exact hl) (fun _ _ h => h)
    fun _ _ h => h.elim) fun released => ?_
  cases released with
  | ok _ => exact Triple.throw fun _ h => ⟨rfl, h⟩
  | error f =>
    refine Triple.bind (Q := fun _ => Standing (takenBack s) a v) (sayAll_spec fun l h _ => ?_)
      fun _ => Triple.throw fun _ h => ⟨rfl, h⟩
    exact ⟨h.store, h.assembler, h.watcher⟩

theorem conclude_failed (fault : LoadFault) :
    Triple (Standing s a v) (conclude (.error fault) : LoadM σ ω Report) (fun _ _ => False)
      (fun f l => f = fault ∧ Standing (takenBack s) a v l) :=
  Triple.bind (close_failed fault) fun _ _ h => h.elim

variable [Watcher ω] {drop : Bool} {gauge : Gauge} {items front rest after : List Item} {i : Item}
  {start l t : Load σ ω} {f : LoadFault}

theorem goOn_of_stuck (h : take gauge i l = (.error f, t)) :
    goOn gauge (i :: after) l = conclude (.error f) t := by
  have stuck : ((i :: after).forM (take gauge) >>= fun _ => drain : LoadM σ ω Counts) l =
      (.error f, t) := by
    simp only [List.forM_eq_forM, List.forM_cons, bind_run, h]
  unfold goOn conclude attempt
  rw [bind_run, stuck]

theorem run_of_unopened (h : upTo drop gauge [] start = (.error f, t)) :
    run drop gauge items start = conclude (.error f) t := by
  have stuck : (openTables drop >>= fun _ => consume gauge items : LoadM σ ω Counts) start =
      (.error f, t) := by
    rw [consume_eq, upTo_eq, bind_run, bind_run, h]
  unfold run conclude attempt
  rw [bind_run, stuck]

theorem Furthest.run_of_rest (h : Furthest drop gauge items start front rest l) (hr : rest ≠ []) :
    ∃ i after f t, rest = i :: after ∧ take gauge i l = (.error f, t) ∧
      run drop gauge items start = conclude (.error f) t := by
  obtain ⟨i, after, rfl⟩ := List.exists_cons_of_ne_nil hr
  obtain ⟨f, t, ht⟩ := h.stuck i after rfl
  refine ⟨i, after, f, t, rfl, ht, ?_⟩
  rw [h.parts, run_of_upTo h.comes, goOn_of_stuck ht]

theorem Furthest.run_of_drain (h : Furthest drop gauge items start front [] l) :
    run drop gauge items start = conclude (drain l).1 (drain l).2 := by
  rw [h.parts, run_of_upTo h.comes]
  rfl

end

end Load

/-! ## Whole loads -/

/-- A load does not start, cannot make its tables, or comes to a last point where it takes items. -/
theorem load_cases {σ ω : Type} [Store σ] [Watcher ω] (i : Input) (s : σ) (base : String) (w : ω)
    (options : Options) :
    (∃ f, load i s base w options = { result := .error f, store := s, watcher := w }) ∨
    ∃ d items lines, Dataset.ofBase base = .ok d ∧ i.items options.encoding = .ok items ∧
      let start := Load.initial d i s w options lines
      load i s base w options = .ofEnd (Load.run options.dropExisting i.gauge items start) ∧
      ((∃ f l, Load.upTo options.dropExisting i.gauge [] start = (.error f, l)) ∨
        ∃ front rest l, Load.Furthest options.dropExisting i.gauge items start front rest l) := by
  cases hd : Dataset.ofBase base with
  | error f =>
    refine Or.inl ⟨.refused .validateNames (.invalidName base f), ?_⟩
    unfold load
    rw [hd]
  | ok d =>
    obtain rfl := Dataset.base_of_ofBase hd
    cases hi : i.items options.encoding with
    | error f => exact Or.inl ⟨_, load_of_unread hi s d w⟩
    | ok items =>
      obtain ⟨lines, begins⟩ := load_of_items hi s d w
      refine Or.inr ⟨d, items, lines, rfl, rfl, begins, ?_⟩
      rcases ho : (Load.upTo options.dropExisting i.gauge []
        (.initial d i s w options lines) : Except LoadFault Unit × Load σ ω) with ⟨f | _, l⟩
      · exact Or.inl ⟨f, l, rfl⟩
      · exact Or.inr (Load.exists_furthest ho items)

end MapTables
