import MapTables.Proofs.Load.Beside
import MapTables.Proofs.Load.Calls
import MapTables.Proofs.Store.Ledger

/-!
# Datasets beside each other

Two datasets share a table only if the base name of one is that of the other with `_way` behind it.
A load names no tables but its own. So it leaves all others as they are, except that its commits
also make final what was staged for them before it.
-/

namespace MapTables

/-! ## Shared names -/

theorem TableKind.tail_suffix {j k : TableKind} (h : k.tail.toList <:+ j.tail.toList) :
    j = k ∨ j = .wayNode ∧ k = .node := by
  have all : ∀ j ∈ TableKind.all, ∀ k ∈ TableKind.all, k.tail.toList <:+ j.tail.toList →
      j = k ∨ j = .wayNode ∧ k = .node := by decide +kernel
  exact all j j.mem_all k k.mem_all h

namespace Dataset

variable {d d' : Dataset} {j k : TableKind}

/-- The longer base name is the other one, or goes on with `_way` behind it. -/
theorem base_of_shared {more : List Char} (hbase : d'.base.toList = d.base.toList ++ more)
    (htail : j.tail.toList = more ++ k.tail.toList) :
    d.base = d'.base ∨ d'.base = d.base ++ "_way" ∧ j = .wayNode ∧ k = .node := by
  rcases TableKind.tail_suffix ⟨more, htail.symm⟩ with rfl | ⟨rfl, rfl⟩
  · obtain rfl : more = [] := List.self_eq_append_left.mp htail
    rw [List.append_nil] at hbase
    exact Or.inl (String.ext hbase.symm)
  · have hmore : "_way".toList ++ TableKind.node.tail.toList =
        more ++ TableKind.node.tail.toList := by
      rw [← htail]
      decide +kernel
    obtain rfl := List.append_cancel_right hmore
    exact Or.inr ⟨String.ext (by rw [hbase, String.toList_append]), rfl, rfl⟩

theorem tableName_eq_iff (hd : d.base ≠ d'.base) : d.tableName j = d'.tableName k ↔
    (d'.base = d.base ++ "_way" ∧ j = .wayNode ∧ k = .node) ∨
      (d.base = d'.base ++ "_way" ∧ j = .node ∧ k = .wayNode) := by
  constructor
  · intro h
    have h := congrArg String.toList h
    simp only [tableName, String.toList_append] at h
    rcases List.append_eq_append_iff.mp h with ⟨more, hbase, htail⟩ | ⟨more, hbase, htail⟩
    · exact Or.inl ((base_of_shared hbase htail).resolve_left hd)
    · obtain ⟨hb, hk, hj⟩ := (base_of_shared hbase htail).resolve_left (Ne.symm hd)
      exact Or.inr ⟨hb, hj, hk⟩
  · have shared : "_way" ++ TableKind.node.tail = TableKind.wayNode.tail := by decide +kernel
    rintro (⟨hb, rfl, rfl⟩ | ⟨hb, rfl, rfl⟩)
    all_goals rw [tableName, tableName, hb, String.append_assoc, shared]

theorem not_mem_tableNames {table : String} :
    table ∉ d.tableNames ↔ ∀ k, table ≠ d.tableName k := by
  simp [tableNames, TableKind.mem_all, eq_comm]

end Dataset

/-! ## Tables that are not named -/

def Request.table? : Request → Option String
  | .tableExists table | .dropTable table | .createTable _ table | .insert _ table _ => some table
  | _ => none

theorem table?_of_script {d : Dataset} {drop : Bool} {batches : List Batch} {r : Request}
    {table : String} (h : r ∈ script d drop batches) (ht : r.table? = some table) :
    table ∈ d.tableNames := by
  have named (k : TableKind) : d.tableName k ∈ d.tableNames := List.mem_map_of_mem k.mem_all
  unfold script openingRequests batchRequests Dataset.tables at h
  simp only [List.mem_append, List.mem_map, List.mem_flatMap, List.mem_cons, List.not_mem_nil,
    or_false] at h
  rcases h with (((h | ⟨_, hn, rfl⟩) | ⟨_, ⟨k, -, rfl⟩, rfl⟩) | rfl) | ⟨b, -, rfl | rfl | rfl⟩
  · split at h
    · obtain ⟨_, hn, rfl⟩ := List.mem_map.mp h
      exact Option.some.inj ht ▸ hn
    · cases h
  · exact Option.some.inj ht ▸ hn
  · exact Option.some.inj ht ▸ named k
  · cases ht
  · exact Option.some.inj ht ▸ named b.1
  · cases ht
  · cases ht

variable {d : Dataset} {drop ok : Bool} {calls : List Call} {table : String}

theorem Protocol.tables (h : Protocol d drop calls ok) {c : Call} (hc : c ∈ calls)
    (ht : c.request.table? = some table) : table ∈ d.tableNames := by
  obtain ⟨body, ends, release, rfl, hbody, hr, hends⟩ := h.parts
  simp only [List.mem_append, List.mem_singleton] at hc
  rcases hc with (hc | hc) | rfl
  · obtain ⟨batches, hs⟩ := mem_script hbody hc
    exact table?_of_script hs ht
  · rcases hends c hc with he | he <;> rw [he] at ht <;> cases ht
  · rw [hr] at ht
    cases ht

theorem Protocol.rollback_last (h : Protocol d drop calls ok) : ∃ before after,
    calls = before ++ after ∧ (∀ c ∈ before, c.request ≠ .rollback) ∧
      ∀ c ∈ after, c.request ≠ .commit := by
  have body {calls : List Call} (h : Scripted d drop calls ∨ Halted d drop calls) :
      ∀ c ∈ calls, c.request ≠ .rollback := by
    intro c hc he
    obtain ⟨batches, hs⟩ := mem_script h hc
    exact (method_of_script hs).1 (congrArg Request.method he)
  have followed {body more : List Call} (hbody : ∀ c ∈ body, c.request ≠ .rollback)
      (hmore : ∀ c ∈ more, c.request ≠ .rollback) : ∀ c ∈ body ++ more, c.request ≠ .rollback :=
    fun c hc => (List.mem_append.mp hc).elim (hbody c) (hmore c)
  cases h with
  | @completed calls commit release scripted hc _ hr =>
    refine ⟨calls ++ [commit, release], [], by simp, followed (body (Or.inl scripted)) ?_, nofun⟩
    simp [hc, hr]
  | @uncommitted calls commit rollback release scripted hc _ hb hr =>
    refine ⟨calls ++ [commit], [rollback, release], by simp,
      followed (body (Or.inl scripted)) ?_, ?_⟩ <;> simp [hc, hb, hr]
  | @aborted calls rollback release ended hb hr =>
    exact ⟨calls, [rollback, release], rfl, body ended, by simp [hb, hr]⟩

/-! ## Rows beside a load -/

def Call.commits : Call → Bool
  | ⟨.commit, .ok _⟩ => true
  | _ => false

/-- The committed rows of a table, if it is there, and those that are staged for it. -/
structure Shelf where
  rows? : Option (Array Row)
  staged : List Row

namespace Shelf

def commit (s : Shelf) : Shelf :=
  ⟨s.staged.foldl (fun rows? r => some ((rows?.getD #[]).push r)) s.rows?, []⟩

def rollback (s : Shelf) : Shelf := { s with staged := [] }

/-- What a call makes of a table that it does not name. -/
def after (s : Shelf) : Call → Shelf
  | ⟨.commit, .ok _⟩ => s.commit
  | ⟨.rollback, .ok _⟩ => s.rollback
  | _ => s

theorem after_of_refused {s : Shelf} {c : Call} {f : StoreFault} (h : c.answer = .error f) :
    s.after c = s := by
  obtain ⟨r, a⟩ := c
  simp only at h
  subst h
  cases r <;> rfl

theorem rows?_commit_of_unstaged {s : Shelf} (h : s.staged = []) : s.commit.rows? = s.rows? := by
  rw [commit, h]
  rfl

theorem commit_commit (s : Shelf) : s.commit.commit = s.commit := rfl

theorem after_of_ne_rollback {c : Call} (s : Shelf) (h : c.request ≠ .rollback) :
    s.after c = if c.commits then s.commit else s := by
  obtain ⟨r, a⟩ := c
  cases r with
  | rollback => exact absurd rfl h
  | commit => cases a <;> rfl
  | _ => rfl

theorem rows?_after_of_ne_commit {c : Call} (s : Shelf) (h : c.request ≠ .commit) :
    (s.after c).rows? = s.rows? ∧ c.commits = false := by
  obtain ⟨r, a⟩ := c
  cases r with
  | commit => exact absurd rfl h
  | rollback => cases a <;> exact ⟨rfl, rfl⟩
  | _ => exact ⟨rfl, rfl⟩

theorem foldl_after {calls : List Call} (s : Shelf) (h : ∀ c ∈ calls, c.request ≠ .rollback) :
    calls.foldl after s = if calls.any Call.commits then s.commit else s := by
  induction calls generalizing s with
  | nil => rfl
  | cons c calls ih =>
    obtain ⟨hc, hcalls⟩ := List.forall_mem_cons.mp h
    rw [List.foldl_cons, after_of_ne_rollback s hc, ih _ hcalls, List.any_cons]
    cases c.commits with
    | true => simp [commit_commit]
    | false => rfl

theorem rows?_foldl_after {calls : List Call} (s : Shelf) (h : ∀ c ∈ calls, c.request ≠ .commit) :
    (calls.foldl after s).rows? = s.rows? ∧ calls.any Call.commits = false := by
  induction calls generalizing s with
  | nil => exact ⟨rfl, rfl⟩
  | cons c calls ih =>
    obtain ⟨hc, hcalls⟩ := List.forall_mem_cons.mp h
    obtain ⟨hrows, hcommits⟩ := rows?_after_of_ne_commit s hc
    obtain ⟨hrest, hnone⟩ := ih (s.after c) hcalls
    exact ⟨hrest.trans hrows, by rw [List.any_cons, hcommits, hnone]; rfl⟩

end Shelf

namespace Memory

def shelf (m : Memory) (table : String) : Shelf where
  rows? := m.tables.get? table
  staged := (m.staged.toList.filter fun s => s.1 = table).map Prod.snd

theorem shelf_commit (m : Memory) (table : String) :
    m.commit.shelf table = (m.shelf table).commit := by
  have settled : ∀ (l : List (String × Row)) (tables : Catalog (Array Row)),
      (l.foldl settle tables).get? table =
        ((l.filter fun s => s.1 = table).map Prod.snd).foldl
          (fun rows? r => some ((rows?.getD #[]).push r)) (tables.get? table) := by
    intro l
    induction l with
    | nil => exact fun _ => rfl
    | cons s l ih =>
      intro tables
      rw [List.foldl_cons, ih, settle, Catalog.get?_alter, List.filter_cons]
      by_cases h : s.1 = table
      · subst h
        cases tables.get? s.1 <;> simp
      · simp [h, Ne.symm h]
  unfold commit shelf Shelf.commit
  rw [← Array.foldl_toList, settled]
  rfl

theorem shelf_insert_of_ne {k : TableKind} {name table : String} (h : name ≠ table)
    (m : Memory) (rows : List Row) : (m.insert k name rows).2.shelf table = m.shelf table := by
  cases hi : m.insert k name rows with
  | mk a next =>
    cases a with
    | error f =>
      have := ask_error (r := .insert k name rows) (congrArg Prod.fst hi)
      exact congrArg (shelf · table) ((congrArg Prod.snd hi).symm.trans this)
    | ok stored =>
      obtain ⟨htables, kept, hstaged, -⟩ := insert_staged hi
      simp [shelf, htables, hstaged, List.filter_map, Function.comp_def, h]

theorem shelf_ask {r : Request} (h : r.table? ≠ some table) (m : Memory) :
    (ask r m).2.shelf table = (m.shelf table).after ⟨r, (ask r m).1⟩ := by
  cases r with
  | tableExists name => rfl
  | dropTable name =>
    have : table ≠ name := fun he => h (he ▸ rfl)
    simp [ask, shelf, Catalog.get?_erase, this, Shelf.after]
  | createTable k name =>
    have : table ≠ name := fun he => h (he ▸ rfl)
    change (createTable m name).2.shelf table = m.shelf table
    unfold createTable
    split
    · rfl
    · simp [shelf, Catalog.get?_insert, this]
  | beginTransaction => rfl
  | insert k name rows =>
    have : name ≠ table := fun he => h (he ▸ rfl)
    exact shelf_insert_of_ne this m rows
  | commit => exact m.shelf_commit table
  | rollback => simp [ask, rollback, shelf, Shelf.after, Shelf.rollback]
  | release =>
    change (release m).2.shelf table = m.shelf table
    unfold release
    split <;> rfl

end Memory

section

variable {σ ω : Type} [Store σ] [Watcher ω] {view : σ → Memory} {refusing : Prop} {s t : σ}

theorem Drives.shelf_calls (dr : Drives view refusing) (ha : Answers s calls t)
    (h : ∀ c ∈ calls, c.request.table? ≠ some table) :
    (view t).shelf table = calls.foldl Shelf.after ((view s).shelf table) := by
  induction ha with
  | nil => rfl
  | @cons s t u c calls answer rest ih =>
    have hc := h c List.mem_cons_self
    have moved : (view t).shelf table = ((view s).shelf table).after c := by
      rcases dr.moves answer with ⟨hm, hv⟩ | ⟨⟨f, hf⟩, hv⟩
      · rw [hv, Memory.shelf_ask hc, ← hm]
      · rw [hv, Shelf.after_of_refused hf]
    rw [List.foldl_cons, ← moved]
    exact ih fun c' hc' => h c' (List.mem_cons_of_mem c hc')

/-- A load that begins asks by its protocol, and one that does not asks nothing. On any store that
answers the same it goes the same way, and leaves the store as the answers do. -/
theorem load_asks (i : Input) (s : σ) (base : String) (w : ω) (options : Options) :
    let calls := (load i (Logged.mk s []) base w options).store.calls
    ((i.Unstarted base options.encoding ∧ calls = []) ∨
      (¬ i.Unstarted base options.encoding ∧ ∃ d ok, Dataset.ofBase base = .ok d ∧
        Protocol d options.dropExisting calls ok)) ∧
    Answers s calls (load i s base w options).store ∧
    ∀ t t' : σ, Answers t calls t' → (load i t base w options).store = t' ∧
      (load i t base w options).result = (load i s base w options).result := by
  intro calls
  obtain ⟨unstarted, started⟩ := load_follows_protocol i s base w options
  obtain ⟨answers, same⟩ := load_answered i s s base w options
  obtain ⟨alike, hstore⟩ := same _ answers
  refine ⟨?_, hstore ▸ answers, fun t t' ht => ?_⟩
  · by_cases hi : i.Unstarted base options.encoding
    · exact Or.inl ⟨hi, unstarted hi⟩
    · obtain ⟨d, _, hd, rfl, protocol, -⟩ := started hi
      exact Or.inr ⟨hi, d, _, hd, protocol⟩
  · obtain ⟨alike', hstore'⟩ := (load_answered i s t base w options).2 t' ht
    exact ⟨hstore', alike'.result.trans alike.result.symm⟩

theorem shelf_load (dr : Drives view refusing) (i : Input) (s : σ) (w : ω) (options : Options)
    (other : table ∉ d.tableNames) :
    ((view (load i s d.base w options).store).shelf table).rows? =
      if (load i (Logged.mk s []) d.base w options).store.calls.any Call.commits then
        ((view s).shelf table).commit.rows?
      else ((view s).shelf table).rows? := by
  obtain ⟨asked, answers, -⟩ := load_asks i s d.base w options
  rcases asked with ⟨-, hnone⟩ | ⟨-, d', ok, hd, protocol⟩
  · rw [hnone] at answers ⊢
    rw [(answers.unique .nil rfl).2]
    rfl
  · rw [Dataset.ofBase_base] at hd
    cases hd
    rw [dr.shelf_calls answers fun c hc ht => other (protocol.tables hc ht)]
    -- Before the rollback the first commit counts, and behind it there is none.
    obtain ⟨before, after, hcalls, hb, ha⟩ := protocol.rollback_last
    obtain ⟨hrows, hnone⟩ := Shelf.rows?_foldl_after (before.foldl Shelf.after _) ha
    rw [hcalls, List.foldl_append, hrows, List.any_append, hnone, Bool.or_false,
      Shelf.foldl_after _ hb]
    split <;> rfl

theorem get?_load_of_unstaged (dr : Drives view refusing) (i : Input) {s : σ} (w : ω)
    (options : Options) (other : table ∉ d.tableNames)
    (unstaged : ∀ r ∈ (view s).staged, r.1 ≠ table) :
    (view (load i s d.base w options).store).tables.get? table = (view s).tables.get? table := by
  have none : ((view s).shelf table).staged = [] := by
    simpa [Memory.shelf] using unstaged
  refine (shelf_load dr i s w options other).trans ?_
  rw [Shelf.rows?_commit_of_unstaged none, ite_self]
  rfl

/-- Two datasets share a table just if the base name of one is that of the other with `_way` behind
it, and then only the way-node table of the shorter one. All other tables of a dataset are there
after a load into another one just if they were before, with the rows that they had, and with those
that were staged for them if the load has made anything final. -/
theorem load_keeps_other_datasets (dr : Drives view refusing) {d d' : Dataset}
    (hd : d.base ≠ d'.base) :
    (∀ j k, d.tableName j = d'.tableName k ↔
      (d'.base = d.base ++ "_way" ∧ j = .wayNode ∧ k = .node) ∨
        (d.base = d'.base ++ "_way" ∧ j = .node ∧ k = .wayNode)) ∧
    ∀ (i : Input) (s : σ) (w : ω) (options : Options) (k : TableKind),
      (∀ j, d.tableName j ≠ d'.tableName k) →
      let asked := (load i (Logged.mk s []) d.base w options).store.calls
      let before := view s
      let after := view (load i s d.base w options).store
      after.tables.get? (d'.tableName k) =
        (if asked.any Call.commits then before.commit else before).tables.get? (d'.tableName k) ∧
      ((∀ r ∈ before.staged, r.1 ≠ d'.tableName k) →
        after.tables.get? (d'.tableName k) = before.tables.get? (d'.tableName k)) := by
  refine ⟨fun j k => Dataset.tableName_eq_iff hd, fun i s w options k apart => ?_⟩
  intro asked before after
  have other : d'.tableName k ∉ d.tableNames :=
    Dataset.not_mem_tableNames.mpr fun j => (apart j).symm
  refine ⟨?_, get?_load_of_unstaged dr i w options other⟩
  refine (shelf_load dr i s w options other).trans ?_
  rw [← Memory.shelf_commit]
  split <;> rfl

theorem load_keeps_other_datasets_of_shorter_name :
    let d : Dataset := ⟨"x_way", by decide⟩
    let d' : Dataset := ⟨"x", by decide⟩
    let m : Memory := { tables := ⟨[("x_way", #[.way { id := 1 }])]⟩ }
    d.base ≠ d'.base ∧ (∀ j, d.tableName j ≠ d'.tableName .way) ∧
    (load (.ofText "<osm/>") m d.base Unwatched.mk { dropExisting := true }).store.tables.get?
      (d'.tableName .way) = some #[.way { id := 1 }] := by
  intro d d' m
  have hd : d.base ≠ d'.base := by decide
  have apart : ∀ j, d.tableName j ≠ d'.tableName .way := by
    intro j
    cases j <;> decide +kernel
  refine ⟨hd, apart, ?_⟩
  exact ((load_keeps_other_datasets drives_memory hd).2 (.ofText "<osm/>") m Unwatched.mk
    { dropExisting := true } .way apart).2 (by decide)

/-- What two datasets share is lost to one of them, and the rows that were staged for another
dataset are made final. -/
theorem load_changes_other_dataset :
    let d : Dataset := ⟨"x_way", by decide⟩
    let d' : Dataset := ⟨"x", by decide⟩
    let shared : Memory := { tables := ⟨[("x_way_node", #[.wayNode ⟨1, 2, 1⟩])]⟩ }
    let staged : Memory := {
      tables := ⟨[("x_way", #[])]⟩
      staged := #[("x_way", .way { id := 1 })] }
    let after (m : Memory) := (load (.ofText "<osm/>") m d.base Unwatched.mk
      { dropExisting := true }).store
    d.base ≠ d'.base ∧ d.tableName .node = d'.tableName .wayNode ∧
    shared.tables.get? (d'.tableName .wayNode) = some #[.wayNode ⟨1, 2, 1⟩] ∧
    (after shared).tables.get? (d'.tableName .wayNode) = some #[] ∧
    (∀ j, d.tableName j ≠ d'.tableName .way) ∧
    staged.tables.get? (d'.tableName .way) = some #[] ∧
    (after staged).tables.get? (d'.tableName .way) = some #[.way { id := 1 }] := by
  intro d d' shared staged after
  refine ⟨by decide, by decide +kernel, by decide +kernel, by decide +kernel, fun j => ?_,
    by decide +kernel, by decide +kernel⟩
  cases j <;> decide +kernel

end

end MapTables
