import MapTables.Proofs.Table.Key
import MapTables.Store.Sqlite.Database

/-!
# Datasets in a database

The ten tables of a dataset in a database, each with the cells of the rows it was given. A
row with a new key is put behind them.
-/

namespace MapTables.Sqlite

/-! ## Cells of keys -/

def keyCells : RowKey → List Cell
  | .feature id => [.integer id]
  | .tag owner key => [.integer owner, .text key]
  | .place owner position => [.integer owner, .integer position]

theorem keyCells_inj {a b : RowKey} (h : keyCells a = keyCells b) : a = b := by
  cases a <;> cases b <;> simp_all [keyCells, Int32.toInt_inj]

theorem cells?_member (k : TableKind) (m : MemberRow) : cells? k (.member m) =
    if k = .membersOf m.kind then
      some [.integer m.relation, .integer m.ref, .ofOption .text m.role, .integer m.sequence]
    else none := by
  cases k <;> rfl

theorem isSome_cells? (k : TableKind) (r : Row) : (cells? k r).isSome = k.takes r := by
  cases r with
  | member m =>
    rw [cells?_member]
    by_cases hk : k = .membersOf m.kind <;> simp [TableKind.takes, hk]
  | _ => cases k <;> rfl

theorem entry_eq {k : TableKind} {r : Row} {cells : List Cell} {t : StoredTable}
    (h : cells? k r = some cells) (hc : t.columns = columnNames k) (hk : t.key = key k) :
    t.entry cells = ⟨keyCells r.key, cells⟩ := by
  have hpick : t.pick cells t.key = keyCells r.key := by
    unfold StoredTable.pick
    rw [hc, hk]
    cases r with
    | member m =>
      rw [cells?_member] at h
      split at h
      · next hkind =>
        obtain ⟨relation, ref, kind, role, sequence⟩ := m
        cases h
        subst hkind
        cases kind <;> rfl
      · cases h
    | _ => cases k <;> cases h <;> rfl
  rw [StoredTable.entry, hpick]

/-! ## Names of tables -/

theorem fold_append (a b : String) : fold (a ++ b) = fold a ++ fold b := by
  simp [fold]

theorem fold_tail (k : TableKind) : fold k.tail = k.tail := by cases k <;> decide +kernel

theorem fold_tableName (d : Dataset) (k : TableKind) :
    fold (d.tableName k) = fold d.base ++ k.tail := by
  rw [Dataset.tableName, fold_append, fold_tail]

theorem fold_tableName_inj (d : Dataset) {j k : TableKind}
    (h : fold (d.tableName j) = fold (d.tableName k)) : j = k := by
  rw [fold_tableName, fold_tableName] at h
  apply TableKind.tail_inj
  simpa [String.ext_iff] using h

/-- The engine keeps names that begin with this base for itself. -/
def Reserves (base : String) : Prop :=
  fold base = "sqlite" ∨ (fold base).startsWith "sqlite_" = true

theorem isReserved_tableName {d : Dataset} (h : ¬ Reserves d.base) (k : TableKind) :
    isReserved (d.tableName k) = false := by
  rw [Bool.eq_false_iff]
  intro hr
  apply h
  unfold isReserved at hr
  rw [fold_tableName, String.startsWith_string_iff, String.toList_append] at hr
  rw [Reserves, String.startsWith_string_iff]
  rcases List.prefix_or_prefix_of_prefix hr (List.prefix_append _ _) with hp | ⟨rest, hp⟩
  · exact Or.inr hp
  · rw [← hp, List.prefix_append_right_inj] at hr
    match rest with
    | [] =>
      rw [List.append_nil] at hp
      rw [hp]
      exact Or.inr (List.prefix_refl _)
    | c :: rest =>
      -- The name goes on with an underscore, and there is one at the end only.
      obtain rfl : c = '_' := by
        rw [TableKind.tail, String.toList_append] at hr
        exact (List.cons_prefix_cons.mp hr).1
      have hw : (fold d.base).toList = ['s', 'q', 'l', 'i', 't', 'e'] ∧ rest = [] := by
        simpa [List.append_eq_cons_iff, List.cons_eq_append_iff] using hp
      exact Or.inl (String.ext_iff.mpr hw.1)

theorem catalog?_of_not_reserved {name : String} (h : isReserved name = false) :
    catalog? name = none := by
  have hall : ∀ p ∈ catalogs, p.1.startsWith "sqlite_" = true := by
    simp [catalogs, String.startsWith_string_iff]
  unfold catalog?
  rw [List.lookup_eq_none_iff]
  intro p hp
  rw [bne_iff_ne]
  intro he
  have := hall p hp
  rw [← he] at this
  exact Bool.eq_false_iff.mp h this

/-! ## Tables of a dataset -/

/-- The table is one of the kind and holds these rows, in their order. -/
structure StoredTable.Holds (t : StoredTable) (k : TableKind) (rows : List Row) : Prop where
  columns : t.columns = columnNames k
  key : t.key = Sqlite.key k
  cells : t.rows.toList.map (fun e => some e.cells) = rows.map (cells? k)
  keys : t.rows.toList.map Entry.key = rows.map fun r => keyCells r.key

/-- The database has the tables that were made for a dataset with the rows they were given, and
nothing else. -/
structure Housed (d : Dataset) (made : List TableKind) (given : TableKind → List Row)
    (c : Contents) : Prop where
  present : ∀ k ∈ made, ∃ t, c.table? (d.tableName k) = some t ∧ t.Holds k (given k)
  only : ∀ name t, c.tables.get? name = some t → ∃ k ∈ made, name = fold (d.tableName k)
  views : c.views = {}

namespace StoredTable.Holds

variable {t : StoredTable} {k : TableKind} {rows : List Row} {r : Row} {cells : List Cell}

theorem hasKey_eq_false (h : t.Holds k rows) (hc : cells? k r = some cells)
    (new : r.key ∉ rows.map Row.key) : t.hasKey (t.entry cells) = false := by
  rw [entry_eq hc h.columns h.key]
  unfold hasKey
  rw [Bool.and_eq_false_imp]
  intro _
  rw [← Array.any_toList, List.any_eq_false]
  intro e he
  have hk : e.key ∈ t.rows.toList.map Entry.key := List.mem_map_of_mem he
  rw [h.keys] at hk
  obtain ⟨r', hr', hkey⟩ := List.mem_map.mp hk
  rw [← hkey, beq_iff_eq]
  exact fun he => new (keyCells_inj he ▸ List.mem_map_of_mem hr')

theorem push (h : t.Holds k rows) (hc : cells? k r = some cells) :
    (t.push (t.entry cells)).Holds k (rows ++ [r]) := by
  refine ⟨h.columns, h.key, ?_, ?_⟩
  · simp [StoredTable.push, h.cells, hc, entry]
  · simp [StoredTable.push, h.keys, entry_eq hc h.columns h.key]

end StoredTable.Holds

namespace Housed

variable {d : Dataset} {made : List TableKind} {given : TableKind → List Row} {c : Contents}

theorem absent (h : Housed d made given c) {k : TableKind} (hk : k ∉ made) :
    c.table? (d.tableName k) = none := by
  cases ht : c.table? (d.tableName k) with
  | none => rfl
  | some t =>
    obtain ⟨j, hj, he⟩ := h.only _ t ht
    exact (hk (fold_tableName_inj d he ▸ hj)).elim

theorem view? (h : Housed d made given c) (name : String) : c.view? name = none := by
  rw [Contents.view?, h.views]
  rfl

theorem drop (h : Housed d [] given c) (unreserved : ¬ Reserves d.base) (k : TableKind) :
    ∃ c', c.drop (d.tableName k) = .ok c' ∧ Housed d [] given c' := by
  have hcat := catalog?_of_not_reserved (isReserved_tableName unreserved k)
  refine ⟨{ c with tables := c.tables.erase (fold (d.tableName k)) }, ?_, ?_, ?_, h.views⟩
  · simp only [Contents.drop, hcat, h.view?]
  · exact fun _ hk => (List.not_mem_nil hk).elim
  · intro name t ht
    simp only [Catalog.get?_erase] at ht
    split at ht
    · cases ht
    · exact h.only name t ht

theorem create (h : Housed d made (fun _ => []) c) (unreserved : ¬ Reserves d.base)
    {k : TableKind} (hk : k ∉ made) :
    ∃ c', c.create k (d.tableName k) = .ok c' ∧ Housed d (made ++ [k]) (fun _ => []) c' := by
  let t : StoredTable := { name := d.tableName k, columns := columnNames k, key := key k }
  refine ⟨c.addTable t, ?_, fun j hj => ?_, fun name u hu => ?_, h.views⟩
  · simp only [Contents.create, Contents.checkName, isReserved_tableName unreserved k, h.absent hk,
      h.view?]
    rfl
  · simp only [Contents.table?, Contents.addTable, Catalog.get?_insert]
    rw [List.mem_append, List.mem_singleton] at hj
    split
    · next he =>
      obtain rfl := fold_tableName_inj d he
      exact ⟨t, rfl, rfl, rfl, rfl, rfl⟩
    · next hne => exact h.present j (hj.resolve_right fun he => hne (by rw [he]))
  · simp only [Contents.addTable, Catalog.get?_insert] at hu
    split at hu
    · next he => exact ⟨k, by simp, he⟩
    · obtain ⟨j, hj, he⟩ := h.only name u hu
      exact ⟨j, List.mem_append_left _ hj, he⟩

theorem target (h : Housed d made given c) (unreserved : ¬ Reserves d.base) {k : TableKind}
    (hk : k ∈ made) :
    ∃ t, c.target k (d.tableName k) = .ok t ∧ c.table? (d.tableName k) = some t ∧
      t.Holds k (given k) := by
  obtain ⟨t, ht, holds⟩ := h.present k hk
  refine ⟨t, ?_, ht, holds⟩
  have hcat := catalog?_of_not_reserved (isReserved_tableName unreserved k)
  have hcols : t.unknownColumn? (columnNames k) = none := by
    simp [StoredTable.unknownColumn?, holds.columns]
  simp only [Contents.target, hcat, ht, hcols]

theorem push (h : Housed d made given c) {k : TableKind} {t fresh : StoredTable} {r : Row}
    {cells : List Cell} (ht : c.table? (d.tableName k) = some t) (holds : t.Holds k (given k))
    (hc : cells? k r = some cells) :
    Housed d made (fun j => given j ++ if k = j then [r] else [])
      { c with
        tables := c.tables.alter (fold (d.tableName k)) (·.push (t.entry cells)) fresh } := by
  have htables : c.tables.get? (fold (d.tableName k)) = some t := ht
  refine ⟨fun j hj => ?_, fun name u hu => ?_, h.views⟩
  · simp only [Contents.table?, Catalog.get?_alter, htables]
    by_cases hjk : k = j
    · subst hjk
      exact ⟨_, if_pos rfl, by simpa using holds.push hc⟩
    · rw [if_neg fun he => hjk (fold_tableName_inj d he).symm, if_neg hjk, List.append_nil]
      exact h.present j hj
  · simp only [Catalog.get?_alter] at hu
    split at hu
    · next he => exact h.only _ t (he ▸ htables)
    · exact h.only name u hu

end Housed

/-! ## Rows on their way into a database -/

namespace Database

/-- A database with a dataset's tables, and what it goes back to when it is asked to. -/
structure Houses (d : Dataset) (made : List TableKind) (given : TableKind → List Row)
    (before : Option Contents) (db : Database) : Prop where
  native : db.foreign = false
  before_eq : db.before = before
  contents : Housed d made given db.contents

variable {d : Dataset} {given : TableKind → List Row} {before : Option Contents} {db : Database}
  {k : TableKind}

theorem change_of_ok {operation : String} {f : Contents → Except SqlFault Contents} {c : Contents}
    (native : db.foreign = false) (hf : f db.contents = .ok c) :
    db.change operation f = (.ok (), { db with contents := c }) := by
  have hread : (db.read >>= f) = .ok c := by
    rw [read, native, if_neg Bool.false_ne_true]
    exact hf
  rw [change, hread]

theorem insertRow_new (h : db.Houses d TableKind.all given before) (unreserved : ¬ Reserves d.base)
    {r : Row} (takes : k.takes r = true) (new : r.key ∉ (given k).map Row.key) :
    ∃ db', db.insertRow k (d.tableName k) r = (.ok true, db') ∧
      db'.Houses d TableKind.all (fun j => given j ++ if k = j then [r] else []) before := by
  obtain ⟨t, htarget, ht, holds⟩ := h.contents.target unreserved k.mem_all
  rw [← isSome_cells?, Option.isSome_iff_exists] at takes
  obtain ⟨cells, hc⟩ := takes
  refine ⟨(db.keep (.fill k (d.tableName k))).pushEntry (d.tableName k) (t.entry cells), ?_,
    h.native, h.before_eq, h.contents.push ht holds hc⟩
  have hread : (db.read >>= fun c => c.target k (d.tableName k)) = .ok t := by
    rw [read, h.native, if_neg Bool.false_ne_true]
    exact htarget
  simp only [insertRow, hread, hc, put, holds.hasKey_eq_false hc new]
  rfl

theorem insertRows_new (h : db.Houses d TableKind.all given before)
    (unreserved : ¬ Reserves d.base) (rows : List Row) (done : Stored)
    (accepts : k.Accepts (given k ++ rows)) :
    ∃ db', db.insertRows k (d.tableName k) done rows =
        (.ok { done with written := done.written + rows.length }, db') ∧
      db'.Houses d TableKind.all (fun j => given j ++ if k = j then rows else []) before := by
  induction rows generalizing db given done with
  | nil => exact ⟨db, rfl, by simpa using h⟩
  | cons r rows ih =>
    rw [List.append_cons] at accepts
    have hr := accepts.distinct
    rw [List.map_append, List.map_append, List.nodup_append] at hr
    have new : r.key ∉ (given k).map Row.key := fun hk =>
      (List.nodup_append.mp hr.1).2.2 _ hk _ List.mem_cons_self rfl
    obtain ⟨db1, h1, hh1⟩ := insertRow_new h unreserved (accepts.takes r (by simp)) new
    obtain ⟨db2, h2, hh2⟩ :=
      ih hh1 { done with written := done.written + 1 } (by simpa using accepts)
    refine ⟨db2, ?_, ?_⟩
    · rw [insertRows, h1]
      simp only [h2, List.length_cons]
      rw [Nat.add_assoc, Nat.add_comm 1]
    · have hgiven :
          (fun j => (given j ++ if k = j then [r] else []) ++ if k = j then rows else []) =
          fun j => given j ++ if k = j then r :: rows else [] := by
        funext j
        split <;> simp
      rwa [hgiven] at hh2

end Database
end MapTables.Sqlite
