import MapTables.Proofs.Load.Taking

/-!
# Opening a dataset

The tables of a dataset are made where there were none. Until the first transaction begins
no table has a row.
-/

namespace MapTables

/-- A memory with nothing staged and, of the tables of a dataset, with those that were made so
far. They are empty. -/
structure Opening (refusing : Prop) (d : Dataset) (made : List TableKind) (m : Memory) : Prop where
  present : ∀ k ∈ made, m.tables.contains (d.tableName k) = true
  absent : ∀ k, k ∉ made → m.tables.contains (d.tableName k) = false
  empty : ∀ k, m.rows (d.tableName k) = #[]
  unstaged : m.staged = #[]
  unlocked : refusing ∨ m.lockedTable = none
  releasable : refusing ∨ m.refusesRelease = false

namespace Opening

variable {refusing : Prop} {d : Dataset} {made : List TableKind} {m : Memory}

theorem of_absent (absent : ∀ k, m.tables.contains (d.tableName k) = false)
    (unstaged : m.staged = #[]) (unlocked : refusing ∨ m.lockedTable = none)
    (releasable : refusing ∨ m.refusesRelease = false) : Opening refusing d [] m := by
  refine ⟨by simp, fun k _ => absent k, fun k => ?_, unstaged, unlocked, releasable⟩
  have hk := absent k
  unfold Catalog.contains at hk
  unfold Memory.rows
  cases hg : m.tables.get? (d.tableName k) with
  | none => rfl
  | some rows => rw [hg] at hk; cases hk

theorem drop (h : Opening refusing d [] m) (table : String) :
    Opening refusing d [] { m with tables := m.tables.erase table } := by
  have hget (name : String) (hn : m.tables.contains name = false) :
      (m.tables.erase table).get? name = none := by
    rw [Catalog.get?_erase]
    split
    · rfl
    · unfold Catalog.contains at hn
      exact Option.isNone_iff_eq_none.mp (by simpa using hn)
  refine of_absent (fun k => ?_) h.unstaged h.unlocked h.releasable
  have := hget _ (h.absent k (by simp))
  simp only [Catalog.contains, this]
  rfl

theorem create (h : Opening refusing d made m) (k : TableKind) :
    Opening refusing d (made ++ [k])
      { m with tables := m.tables.insert (d.tableName k) #[] } := by
  refine ⟨fun j hj => ?_, fun j hj => ?_, fun j => ?_, h.unstaged, h.unlocked, h.releasable⟩
  · simp only [Catalog.contains, Catalog.get?_insert]
    rw [List.mem_append, List.mem_singleton] at hj
    split
    · rfl
    · next hne => exact h.present j (hj.resolve_right fun he => hne (by rw [he]))
  · simp only [Catalog.contains, Catalog.get?_insert]
    rw [List.mem_append, List.mem_singleton, not_or] at hj
    rw [if_neg (d.tableName_ne hj.2)]
    exact h.absent j hj.1
  · simp only [Memory.rows, Catalog.get?_insert]
    split
    · rfl
    · exact h.empty j

theorem begun (h : Opening refusing d made m) :
    Opening refusing d made { m with inTransaction := true } :=
  ⟨h.present, h.absent, h.empty, h.unstaged, h.unlocked, h.releasable⟩

theorem settled (h : Opening refusing d TableKind.all m) : Settled refusing d m :=
  ⟨fun k => h.present k k.mem_all, h.unstaged, h.unlocked, h.releasable⟩

end Opening

/-! ## The requests -/

variable {σ ω : Type} {view : σ → Memory} {refusing : Prop} {d : Dataset} [Watcher ω] {w : ω}
  {items : List Item} {made made' : List TableKind}

structure Opened (view : σ → Memory) (refusing : Prop) (d : Dataset) (w : ω)
    (made : List TableKind) (l : Load σ ω) : Prop where
  writer : ∃ n, l.writing.writer = { dataset := d, batchSize := n }
  fresh : l.assembler = {}
  watched : Watcher.Reaches w l.watcher
  tables : Opening refusing d made (view l.writing.store)

theorem Opened.taken {l : Load σ ω} (h : Opened view refusing d w TableKind.all l) :
    Taken view refusing d w items [] l := by
  obtain ⟨⟨n, hn⟩, ha, hw, ht⟩ := h
  refine ⟨[], fun _ => [], by rw [ha]; rfl, atClosings_nil, ?_, hw⟩
  refine ⟨by rw [hn], ht.settled, fun k => ?_⟩
  rw [hn]
  exact ⟨by simp, by rw [ht.empty, TableKind.keep_nil], by simp, by simp⟩

variable [Store σ]

theorem Opened.ask (dr : Drives view refusing) {r : Request} (fault : StoreFault → LoadFault)
    {G : r.Answer → Prop}
    (accepted : ∀ m, Opening refusing d made m → ∃ a m', Memory.ask r m = (.ok a, m') ∧
      G a ∧ Opening refusing d made' m') :
    Triple (Opened view refusing d w made) (Load.ask r fault : LoadM σ ω r.Answer)
      (fun a l => G a ∧ Opened view refusing d w made' l)
      (Ended view refusing d w items) := by
  refine Load.byWriter_spec fun l h => ?_
  obtain ⟨a, m', ha, hg, hm⟩ := accepted _ h.tables
  refine (dr.ask r fault l.writing.writer (view l.writing.store) l.writing ⟨rfl, rfl⟩).imp ?_ ?_
  · rintro b t ⟨hw, hb⟩
    rw [ha] at hb
    simp only [Prod.mk.injEq, Except.ok.injEq] at hb
    obtain ⟨rfl, rfl⟩ := hb
    exact ⟨hg, by rw [hw]; exact h.writer, h.fresh, h.watched, hm⟩
  · rintro f t ⟨-, hv, hr⟩
    refine ⟨⟨fun _ => [], atClosings_nil, fun k => ?_⟩, Or.inr (Or.inl (hr.elim id ?_))⟩
    · simp only [hv, h.tables.empty k, TableKind.keep_nil]
    · rintro ⟨f', hf⟩
      rw [ha] at hf
      cases hf

theorem dropTables_spec (dr : Drives view refusing) :
    Triple (Opened view refusing d w []) (Load.dropTables : LoadM σ ω Unit)
      (fun _ => Opened view refusing d w []) (Ended view refusing d w items) := by
  refine Triple.get_bind fun l hl => ?_
  obtain ⟨n, hn⟩ := hl.writer
  refine (Triple.forM (I := fun _ => Opened view refusing d w []) _ ?_).weaken
    (fun _ h => h ▸ hl) (fun _ _ h => h) fun _ _ h => h
  intro _ table _ _
  refine (Opened.ask dr _ (G := fun _ => True) fun m hm => ?_).weaken (fun _ h => h)
    (fun _ _ h => h.2) fun _ _ h => h
  exact ⟨_, _, rfl, trivial, hm.drop table⟩

theorem checkTables_spec (dr : Drives view refusing) :
    Triple (Opened view refusing d w []) (Load.checkTables : LoadM σ ω Unit)
      (fun _ => Opened view refusing d w []) (Ended view refusing d w items) := by
  refine Triple.get_bind fun l hl => ?_
  obtain ⟨n, hn⟩ := hl.writer
  simp only [hn]
  refine (Triple.forM (I := fun _ => Opened view refusing d w []) _ ?_).weaken
    (fun _ h => h ▸ hl) (fun _ _ h => h) fun _ _ h => h
  intro before table after hat
  have hk : table ∈ d.tableNames := by rw [hat]; simp
  obtain ⟨k, -, rfl⟩ := List.mem_map.mp hk
  refine Triple.bind (Q := fun found l => found = false ∧ Opened view refusing d w [] l)
    (Opened.ask dr _ fun m hm => ?_) fun found => ?_
  · exact ⟨_, m, by rw [Memory.ask, hm.absent k (by simp)], rfl, hm⟩
  · refine Triple.of_state ?_
    rintro l' ⟨rfl, ho⟩
    exact Triple.pure fun _ h => h ▸ ho

theorem createTables_spec (dr : Drives view refusing) :
    Triple (Opened view refusing d w []) (Load.createTables : LoadM σ ω Unit)
      (fun _ => Opened view refusing d w TableKind.all) (Ended view refusing d w items) := by
  refine Triple.get_bind fun l hl => ?_
  obtain ⟨n, hn⟩ := hl.writer
  simp only [hn]
  change Triple _ ((TableKind.all.map fun k => (k, d.tableName k)).forM _) _ _
  rw [show ∀ f : TableKind × String → LoadM σ ω PUnit,
    (TableKind.all.map fun k => (k, d.tableName k)).forM f =
      TableKind.all.forM fun k => f (k, d.tableName k) from fun f => List.forM_map]
  refine (Triple.forM (I := Opened view refusing d w) TableKind.all ?_).weaken
    (fun _ h => h ▸ hl) (fun _ _ h => h) fun _ _ h => h
  intro before k after hat
  have hk : k ∉ before := by
    have := TableKind.nodup_all
    rw [hat] at this
    exact fun hb => (List.nodup_append.mp this).2.2 k hb k List.mem_cons_self rfl
  refine (Opened.ask dr _ (G := fun _ => True) fun m hm => ?_).weaken (fun _ h => h)
    (fun _ _ h => h.2) fun _ _ h => h
  refine ⟨(), _, ?_, trivial, hm.create k⟩
  rw [Memory.ask, Memory.createTable, hm.absent k hk]
  rfl

theorem openTables_spec (dr : Drives view refusing) (drop : Bool) :
    Triple (Opened view refusing d w []) (Load.openTables drop : LoadM σ ω Unit)
      (fun _ => Taken view refusing d w items []) (Ended view refusing d w items) := by
  have made : Triple (Opened view refusing d w [])
      (do Load.checkTables
          Load.createTables
          Load.ask .beginTransaction (.refused .beginTransaction) : LoadM σ ω Unit)
      (fun _ => Taken view refusing d w items []) (Ended view refusing d w items) := by
    refine Triple.bind (checkTables_spec dr) fun _ => ?_
    refine Triple.bind (createTables_spec dr) fun _ => ?_
    refine (Opened.ask dr _ (G := fun _ => True) fun m hm => ?_).weaken (fun _ h => h)
      (fun _ _ h => h.2.taken) fun _ _ h => h
    exact ⟨(), _, rfl, trivial, hm.begun⟩
  unfold Load.openTables
  simp only
  split
  · exact Triple.bind (dropTables_spec dr) fun _ => made
  · exact made

end MapTables
