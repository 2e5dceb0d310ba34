import MapTables.Proofs.Load.Neighbours

/-!
# Loads that replace tables

A load that drops its tables first leaves nothing of them. Two memories that differ in these tables
only agree from then on: they answer alike, so the load goes the same way on both.
-/

namespace MapTables

/-! ## Memories that agree -/

namespace Memory

def settings (m : Memory) : Option String × Bool := (m.lockedTable, m.refusesRelease)

/-- The memories differ in these tables only, and in what they count. -/
structure AgreeBut (names : List String) (m m' : Memory) : Prop where
  staged : m'.staged = m.staged
  settings : m'.settings = m.settings
  tables : ∀ table, table ∉ names → m'.tables.get? table = m.tables.get? table

namespace AgreeBut

variable {names : List String} {name : String} {m m' : Memory}

theorem lockedTable (h : AgreeBut names m m') : m'.lockedTable = m.lockedTable :=
  congrArg Prod.fst h.settings

theorem refusesRelease (h : AgreeBut names m m') : m'.refusesRelease = m.refusesRelease :=
  congrArg Prod.snd h.settings

theorem drop (h : AgreeBut (name :: names) m m') :
    AgreeBut names (ask (.dropTable name) m).2 (ask (.dropTable name) m').2 := by
  refine ⟨h.staged, h.settings, fun table ht => ?_⟩
  simp only [ask, Catalog.get?_erase]
  split
  · rfl
  · next hn => exact h.tables table fun hm => (List.mem_cons.mp hm).elim hn ht

theorem contains (h : AgreeBut [] m m') (table : String) :
    m'.tables.contains table = m.tables.contains table :=
  congrArg Option.isSome (h.tables table List.not_mem_nil)

theorem rows (h : AgreeBut [] m m') (table : String) : m'.rows table = m.rows table :=
  congrArg (Option.getD · #[]) (h.tables table List.not_mem_nil)

theorem leavesOut (h : AgreeBut [] m m') (k : TableKind) (table : String) (r : Row) :
    m'.leavesOut k table r = m.leavesOut k table r := by
  unfold Memory.leavesOut hasTag
  rw [h.rows, h.staged]

theorem stage {s s' : Memory × Stored} (h : AgreeBut [] s.1 s'.1) (hs : s'.2 = s.2)
    (k : TableKind) (table : String) (r : Row) :
    AgreeBut [] (Memory.stage k table s r).1 (Memory.stage k table s' r).1 ∧
      (Memory.stage k table s' r).2 = (Memory.stage k table s r).2 := by
  unfold Memory.stage
  rw [h.leavesOut, hs]
  split
  · exact ⟨h, rfl⟩
  · exact ⟨⟨congrArg (Array.push · (table, r)) h.staged, h.settings, h.tables⟩, rfl⟩

theorem stageAll {s s' : Memory × Stored} (h : AgreeBut [] s.1 s'.1) (hs : s'.2 = s.2)
    (k : TableKind) (table : String) (rows : List Row) :
    AgreeBut [] (rows.foldl (Memory.stage k table) s).1 (rows.foldl (Memory.stage k table) s').1 ∧
      (rows.foldl (Memory.stage k table) s').2 = (rows.foldl (Memory.stage k table) s).2 := by
  induction rows generalizing s s' with
  | nil => exact ⟨h, hs⟩
  | cons r rows ih =>
    obtain ⟨hm, hstored⟩ := h.stage hs k table r
    exact ih hm hstored

theorem insert (h : AgreeBut [] m m') (k : TableKind) (table : String) (rows : List Row) :
    (m'.insert k table rows).1 = (m.insert k table rows).1 ∧
      AgreeBut [] (m.insert k table rows).2 (m'.insert k table rows).2 := by
  have hlocked : (m'.lockedTable = some table) = (m.lockedTable = some table) := by
    rw [h.lockedTable]
  unfold Memory.insert
  simp only [hlocked, h.contains]
  split
  · exact ⟨rfl, h⟩
  · split
    · exact ⟨rfl, h⟩
    · have counted : AgreeBut []
          { m with
            batches := m.batches + 1
            batchSizes := m.batchSizes.alter table (·.push rows.length) #[rows.length] }
          { m' with
            batches := m'.batches + 1
            batchSizes := m'.batchSizes.alter table (·.push rows.length) #[rows.length] } :=
        ⟨h.staged, h.settings, h.tables⟩
      obtain ⟨hm, hstored⟩ := @stageAll (_, {}) (_, {}) counted rfl k table rows
      exact ⟨congrArg Except.ok hstored, hm⟩

theorem ask (h : AgreeBut [] m m') (r : Request) :
    (Memory.ask r m').1 = (Memory.ask r m).1 ∧
      AgreeBut [] (Memory.ask r m).2 (Memory.ask r m').2 := by
  cases r with
  | tableExists table => exact ⟨congrArg Except.ok (h.contains table), h⟩
  | dropTable table =>
    exact ⟨rfl, drop ⟨h.staged, h.settings, fun t _ => h.tables t List.not_mem_nil⟩⟩
  | createTable k table =>
    change (m'.createTable table).1 = (m.createTable table).1 ∧
      AgreeBut [] (m.createTable table).2 (m'.createTable table).2
    unfold createTable
    rw [h.contains]
    split
    · exact ⟨rfl, h⟩
    · refine ⟨rfl, h.staged, h.settings, fun t ht => ?_⟩
      simp only [Catalog.get?_insert, h.tables t ht]
  | beginTransaction => exact ⟨rfl, h.staged, h.settings, h.tables⟩
  | insert k table rows => exact h.insert k table rows
  | commit =>
    -- What a commit makes of a table is up to its rows and to those staged for it.
    refine ⟨rfl, rfl, h.settings, fun t ht => ?_⟩
    have hshelf : m'.shelf t = m.shelf t := by
      unfold shelf
      rw [h.staged, h.tables t ht]
    have hrows := congrArg (fun s => (Shelf.commit s).rows?) hshelf
    rw [← shelf_commit, ← shelf_commit] at hrows
    exact hrows
  | rollback => exact ⟨rfl, rfl, h.settings, h.tables⟩
  | release =>
    change (m'.release).1 = (m.release).1 ∧ AgreeBut [] m.release.2 m'.release.2
    have hrefuses : (m'.refusesRelease = true) = (m.refusesRelease = true) := by
      rw [h.refusesRelease]
    unfold release
    simp only [hrefuses]
    split
    · exact ⟨rfl, h⟩
    · exact ⟨rfl, h.staged, h.settings, h.tables⟩

theorem answers {t : Memory} {calls : List Call} (h : AgreeBut [] m m') (ha : Answers m calls t) :
    ∃ t', Answers m' calls t' ∧ AgreeBut [] t t' := by
  induction ha generalizing m' with
  | nil => exact ⟨m', .nil, h⟩
  | @cons s t u c calls answer rest ih =>
    obtain ⟨hanswer, hagree⟩ := h.ask c.request
    rw [show Memory.ask c.request s = (c.answer, t) from answer] at hanswer hagree
    obtain ⟨t', hrest, hend⟩ := ih hagree
    exact ⟨t', .cons (t := (Memory.ask c.request m').2) (Prod.ext hanswer rfl) hrest, hend⟩

theorem answers_drops {t : Memory} {calls : List Call} (h : AgreeBut names m m')
    (ha : Answers m calls t) (hc : calls.map Call.request = names.map Request.dropTable) :
    ∃ t', Answers m' calls t' ∧ AgreeBut [] t t' := by
  induction ha generalizing m' names with
  | nil =>
    obtain rfl := List.map_eq_nil_iff.mp hc.symm
    exact ⟨m', .nil, h⟩
  | @cons s t u c calls answer rest ih =>
    obtain ⟨r, a⟩ := c
    cases names with
    | nil => cases hc
    | cons name names =>
      obtain ⟨hr, hrest⟩ := List.cons.inj hc
      simp only at hr
      subst hr
      have hdrop := h.drop
      obtain ⟨ha, ht⟩ := Prod.mk.inj answer
      rw [show (Memory.ask (.dropTable name) s).2 = t from ht] at hdrop
      obtain ⟨t', hrest, hend⟩ := ih hdrop hrest
      exact ⟨t', .cons (Prod.ext ha rfl) hrest, hend⟩

end AgreeBut

theorem settings_stageAll (k : TableKind) (table : String) (rows : List Row)
    (s : Memory × Stored) : (rows.foldl (stage k table) s).1.settings = s.1.settings := by
  induction rows generalizing s with
  | nil => rfl
  | cons r rows ih =>
    rw [List.foldl_cons, ih]
    unfold stage
    split <;> rfl

theorem settings_ask (r : Request) (m : Memory) : (ask r m).2.settings = m.settings := by
  cases r with
  | createTable k table =>
    change (m.createTable table).2.settings = _
    unfold createTable
    split <;> rfl
  | insert k table rows =>
    change (m.insert k table rows).2.settings = _
    unfold insert
    split
    · rfl
    · split
      · rfl
      · exact settings_stageAll k table rows _
  | release =>
    change m.release.2.settings = _
    unfold release
    split <;> rfl
  | _ => rfl

variable {m t : Memory} {calls : List Call}

theorem settings_answers (h : Answers m calls t) : t.settings = m.settings := by
  induction h with
  | nil => rfl
  | @cons s t u c calls answer rest ih =>
    rw [ih, ← settings_ask c.request s]
    exact congrArg (·.2.settings) answer.symm

theorem granted_of_drop (h : Answers m calls t) {c : Call} (hc : c ∈ calls) {table : String}
    (hr : c.request = .dropTable table) : c.passes = true := by
  induction h with
  | nil => cases hc
  | @cons s t u c' calls answer rest ih =>
    rcases List.mem_cons.mp hc with rfl | hc
    · obtain ⟨r, a⟩ := c
      simp only at hr
      subst hr
      obtain ⟨rfl, -⟩ := Prod.mk.inj answer
      rfl
    · exact ih hc

theorem staged_of_ended {last release : Call} (h : Answers m [last, release] t)
    (hl : last.request = .commit ∨ last.request = .rollback) (hr : release.request = .release) :
    t.staged = #[] := by
  obtain ⟨r, a⟩ := last
  obtain ⟨r', a'⟩ := release
  simp only at hl hr
  subst hr
  cases h with
  | @cons _ s _ _ _ ended rest =>
    cases rest with
    | cons released rest =>
      cases rest
      have hs : s.staged = #[] := by
        rcases hl with rfl | rfl <;> exact congrArg (·.2.staged) ended.symm
      rw [show t = s.release.2 from congrArg Prod.snd released.symm]
      unfold release
      split <;> exact hs

end Memory

/-! ## Loads that drop their tables -/

variable {d : Dataset} {ok : Bool} {calls : List Call}

/-- As long as no drop is refused a load that drops its tables does that first. -/
theorem Protocol.drops (h : Protocol d true calls ok)
    (granted : ∀ c ∈ calls, ∀ table, c.request = .dropTable table → c.passes = true) :
    ∃ drops rest, calls = drops ++ rest ∧
      drops.map Call.request = d.tableNames.map Request.dropTable := by
  have split {body : List Call} {more : List Request}
      (hr : body.map Call.request = d.tableNames.map Request.dropTable ++ more) :
      ∃ drops rest, body = drops ++ rest ∧
        drops.map Call.request = d.tableNames.map Request.dropTable := by
    obtain ⟨drops, rest, hbody, hdrops, -⟩ := List.map_eq_append_iff.mp hr
    exact ⟨drops, rest, hbody, hdrops⟩
  obtain ⟨body, ends, release, rfl, hbody, -⟩ := h.parts
  suffices ∃ drops rest, body = drops ++ rest ∧
      drops.map Call.request = d.tableNames.map Request.dropTable by
    obtain ⟨drops, rest, rfl, hdrops⟩ := this
    exact ⟨drops, rest ++ ends ++ [release], by simp, hdrops⟩
  have opens (batches : List Batch) : ∃ more,
      script d true batches = d.tableNames.map Request.dropTable ++ more :=
    ⟨_, by simp only [script, openingRequests, if_true, List.append_assoc]; rfl⟩
  rcases hbody with ⟨batches, -, hr, -⟩ |
    ⟨batches, requests, -, hpre, before, last, rfl, hfails, -, rfl⟩
  · obtain ⟨more, hmore⟩ := opens batches
    exact split (hr.trans hmore)
  · obtain ⟨more, hmore⟩ := opens batches
    rw [hmore] at hpre
    rcases List.prefix_or_prefix_of_prefix hpre (List.prefix_append _ more) with hp | ⟨rest, hrest⟩
    · -- The call that gave a reason to stop would be a drop.
      have hdrop : last.request ∈ d.tableNames.map Request.dropTable := hp.subset (by simp)
      obtain ⟨table, -, ht⟩ := List.mem_map.mp hdrop
      rw [granted last (by simp) table ht.symm] at hfails
      cases hfails
    · exact split hrest.symm

theorem Protocol.settles {drop : Bool} (h : Protocol d drop calls ok) :
    ∃ front last release, calls = front ++ [last, release] ∧
      (last.request = .commit ∨ last.request = .rollback) ∧ release.request = .release := by
  cases h with
  | completed _ hc _ hr => exact ⟨_, _, _, rfl, Or.inl hc, hr⟩
  | @uncommitted calls commit rollback release _ _ _ hb hr =>
    exact ⟨calls ++ [commit], rollback, release, by simp, Or.inr hb, hr⟩
  | aborted _ hb hr => exact ⟨_, _, _, rfl, Or.inr hb, hr⟩

section

variable {ω : Type} [Watcher ω]

theorem load_unstarted {σ : Type} [Store σ] {i : Input} {base : String} {options : Options}
    (h : i.Unstarted base options.encoding) (s t : σ) (w : ω) :
    (load i s base w options).store = s ∧
      (load i t base w options).result = (load i s base w options).result := by
  obtain ⟨asked, answers, same⟩ := load_asks i s base w options
  rcases asked with ⟨-, hnone⟩ | ⟨started, -⟩
  · rw [hnone] at answers same
    exact ⟨(answers.unique .nil rfl).2, (same t t .nil).2⟩
  · exact absurd h started

theorem load_agrees {i : Input} {d : Dataset} {options : Options}
    (drops : options.dropExisting = true) (started : ¬ i.Unstarted d.base options.encoding)
    {m m' : Memory} (w : ω) (h : m.AgreeBut d.tableNames m') :
    (load i m' d.base w options).result = (load i m d.base w options).result ∧
      Memory.AgreeBut [] (load i m d.base w options).store (load i m' d.base w options).store := by
  obtain ⟨asked, answers, same⟩ := load_asks i m d.base w options
  obtain ⟨-, d', ok, hd, protocol⟩ := asked.resolve_left fun h => started h.1
  rw [Dataset.ofBase_base] at hd
  cases hd
  rw [drops] at protocol
  obtain ⟨front, rest, hcalls, hfront⟩ := protocol.drops fun c hc table hr =>
    Memory.granted_of_drop answers hc hr
  rw [hcalls] at answers same
  -- Behind the drops the memories agree, so the other answers are the same.
  obtain ⟨s, hdropped, hrest⟩ := answers.of_append
  obtain ⟨s', hdropped', hs⟩ := h.answers_drops hdropped hfront
  obtain ⟨t', hrest', ht⟩ := hs.answers hrest
  obtain ⟨hstore, hresult⟩ := same m' t' (hdropped'.append hrest')
  rw [hstore]
  exact ⟨hresult, ht⟩

theorem load_ends_unstaged (i : Input) {m : Memory} (base : String) (w : ω) (options : Options)
    (unstaged : m.staged = #[]) :
    (load i m base w options).store.staged = #[] ∧
      (load i m base w options).store.settings = m.settings := by
  obtain ⟨asked, answers, -⟩ := load_asks i m base w options
  refine ⟨?_, Memory.settings_answers answers⟩
  rcases asked with ⟨-, hnone⟩ | ⟨-, d, ok, -, protocol⟩
  · rw [hnone] at answers
    rw [(answers.unique .nil rfl).2]
    exact unstaged
  · obtain ⟨front, last, release, hcalls, hl, hr⟩ := protocol.settles
    rw [hcalls] at answers
    obtain ⟨s, -, ended⟩ := answers.of_append
    exact Memory.staged_of_ended ended hl hr

/-- What was in its tables does not matter to a load that drops them, and it leaves all others. If
it begins at all it leaves the same tables behind, and otherwise all as it was. Done again right
away it comes to the same. -/
theorem load_replacing_forgets (i : Input) (base : String) (w : ω) (options : Options)
    (drops : options.dropExisting = true) {m m' : Memory} (unstaged : m.staged = #[])
    (unstaged' : m'.staged = #[]) (settings : m'.settings = m.settings)
    (outside : ∀ table, (∀ k : TableKind, table ≠ base ++ k.tail) →
      m'.tables.get? table = m.tables.get? table) :
    let x := load i m base w options
    let x' := load i m' base w options
    let again := load i x.store base w options
    x'.result = x.result ∧
    (∀ table, (∀ k : TableKind, table ≠ base ++ k.tail) →
      x.store.tables.get? table = m.tables.get? table ∧
      x'.store.tables.get? table = m'.tables.get? table) ∧
    (¬ i.Unstarted base options.encoding → ∀ k : TableKind,
      x'.store.tables.get? (base ++ k.tail) = x.store.tables.get? (base ++ k.tail)) ∧
    (i.Unstarted base options.encoding → x.store = m ∧ x'.store = m') ∧
    again.result = x.result ∧
    ∀ table, again.store.tables.get? table = x.store.tables.get? table := by
  intro x x' again
  by_cases hi : i.Unstarted base options.encoding
  · obtain ⟨hx, hresult⟩ := load_unstarted hi m m' w
    have hx' := (load_unstarted hi m' m w).1
    refine ⟨hresult, fun table _ => ⟨?_, ?_⟩, fun h => absurd hi h, fun _ => ⟨hx, hx'⟩, ?_, ?_⟩
    · rw [show x.store = m from hx]
    · rw [show x'.store = m' from hx']
    · exact (load_unstarted hi m x.store w).2
    · intro table
      rw [show again.store = x.store from (load_unstarted hi x.store m w).1]
  · obtain ⟨d, ok, hd, -⟩ := ((load_asks i m base w options).1.resolve_left fun h => hi h.1).2
    obtain rfl := Dataset.base_of_ofBase hd
    have other {table : String} :
        table ∉ d.tableNames ↔ ∀ k : TableKind, table ≠ d.base ++ k.tail :=
      Dataset.not_mem_tableNames
    have frame {m : Memory} (unstaged : m.staged = #[]) (table : String)
        (ht : ∀ k : TableKind, table ≠ d.base ++ k.tail) :
        (load i m d.base w options).store.tables.get? table = m.tables.get? table :=
      get?_load_of_unstaged drives_memory i w options (other.mpr ht) (by simp [unstaged])
    have agree : m.AgreeBut d.tableNames m' :=
      ⟨unstaged'.trans unstaged.symm, settings, fun table ht => outside table (other.mp ht)⟩
    obtain ⟨hresult, hafter⟩ := load_agrees drops hi w agree
    obtain ⟨hstaged, hsettings⟩ := load_ends_unstaged i d.base w options unstaged
    have agree' : m.AgreeBut d.tableNames x.store :=
      ⟨hstaged.trans unstaged.symm, hsettings, fun table ht => frame unstaged table (other.mp ht)⟩
    obtain ⟨hagain, hlast⟩ := load_agrees drops hi w agree'
    exact ⟨hresult, fun table ht => ⟨frame unstaged table ht, frame unstaged' table ht⟩,
      fun _ k => hafter.tables _ List.not_mem_nil, fun h => absurd h hi, hagain,
      fun table => hlast.tables table List.not_mem_nil⟩

theorem load_replacing_forgets_of_way :
    let i := Input.ofText "<way id=\"2\"/>"
    let m : Memory := { tables := ⟨[("t_way", #[.way { id := 1 }])]⟩ }
    let run (m : Memory) := load i m "t" Unwatched.mk { dropExisting := true }
    ¬ i.Unstarted "t" none ∧ (∀ table, (∀ k : TableKind, table ≠ "t" ++ k.tail) →
      m.tables.get? table = none) ∧
    (run {}).store.tables.get? "t_way" = some #[.way { id := 2 }] ∧
    (run m).store.tables.get? "t_way" = some #[.way { id := 2 }] ∧
    (run m).result = (run {}).result ∧ (run (run {}).store).result = (run {}).result := by
  intro i m run
  have started : ¬ i.Unstarted "t" none := by
    rintro (⟨f, hf⟩ | ⟨l, hl, -⟩ | ⟨hp, -⟩)
    · have named : nameFault? "t".toList = none := by decide +kernel
      rw [Dataset.ofBase_eq_error_iff, named] at hf
      cases hf
    · cases hl
    · exact absurd hp (by decide +kernel)
  have outside : ∀ table, (∀ k : TableKind, table ≠ "t" ++ k.tail) →
      m.tables.get? table = none := by
    intro table ht
    exact (Catalog.lookup_cons_eq table "t_way" _ []).trans (if_neg (ht .way))
  obtain ⟨hresult, -, htables, -, hagain, -⟩ := load_replacing_forgets (m := {}) i "t" Unwatched.mk
    { dropExisting := true } rfl rfl (show m.staged = #[] from rfl) rfl outside
  have hrun : (run {}).store.tables.get? "t_way" = some #[.way { id := 2 }] := by decide +kernel
  exact ⟨started, outside, hrun, (htables started .way).trans hrun, hresult, hagain⟩

/-- Before a load begins it drops nothing. -/
theorem load_replacing_keeps_unbegun :
    let m : Memory := { tables := ⟨[("t_way", #[])]⟩ }
    let run (m : Memory) := (load (.ofText "<osm/>") m "t" Unwatched.mk
      { dropExisting := true, encoding := some "klingon" }).store
    m.staged = #[] ∧ (∀ table, (∀ k : TableKind, table ≠ "t" ++ k.tail) →
      m.tables.get? table = none) ∧
    (run m).tables.contains "t_way" = true ∧ (run {}).tables.contains "t_way" = false := by
  intro m run
  refine ⟨rfl, fun table ht => ?_, by decide +kernel, by decide +kernel⟩
  exact (Catalog.lookup_cons_eq table "t_way" _ []).trans (if_neg (ht .way))

end

end MapTables
