import MapTables.Proofs.Assembly.Keys
import MapTables.Proofs.Load.Beside
import MapTables.Proofs.Load.Calls
import MapTables.Proofs.Load.Flush
import MapTables.Proofs.Load.Hosting
import MapTables.Proofs.Load.Outcome
import MapTables.Proofs.Store.Housed

/-!
# Databases and memories

Where no feature is opened twice a load comes to the same in a database as in a memory. The
database then holds the cells of the rows that the memory holds.
-/

namespace MapTables

theorem answers_batch {σ : Type} [Store σ] {d : Dataset} {b : Batch} {s t u v : σ}
    (inserted : Store.ask (.insert b.1 (d.tableName b.1) b.2) s =
      (.ok { written := b.2.length }, t))
    (committed : Store.ask .commit t = (.ok (), u))
    (begun : Store.ask .beginTransaction u = (.ok (), v)) :
    Answers s ((batchRequests d b).map Request.smooth) v :=
  .cons inserted (.cons committed (.cons begun .nil))

/-! ## Memories -/

theorem Memory.released {m : Memory} (h : m.refusesRelease = false) :
    Store.ask .release m = (.ok (), { m with releases := m.releases + 1 }) := by
  change m.release = _
  rw [release, h]
  rfl

def Host.memory (d : Dataset) : Host Memory d where
  opening := Opening False d
  between batches m := Settled False d m ∧ Holds d (rowsOf batches) m
  closed batches m := ∀ k, m.tables.contains (d.tableName k) = true ∧
    (m.rows (d.tableName k)).toList = k.keep (rowsOf batches k)
  drop k m h := ⟨_, rfl, h.drop _⟩
  check k m h := by
    refine ⟨m, ?_, h⟩
    change Memory.ask _ m = _
    rw [Memory.ask, h.absent k List.not_mem_nil]
  create made k m hk h := by
    refine ⟨_, ?_, h.create k⟩
    change m.createTable _ = _
    rw [Memory.createTable, h.absent k hk]
    rfl
  start m h := by
    refine ⟨_, rfl, h.begun.settled, fun k => ?_⟩
    rw [h.begun.empty k]
    exact k.keep_nil.symm
  batch batches b m ha h := by
    obtain ⟨hs, hh⟩ := h
    have accepts := ha b.1
    rw [rowsOf_concat, if_pos rfl] at accepts
    obtain ⟨next, hi, staging⟩ := Memory.insert_new (hs.unlocked.resolve_left id) (hs.present b.1)
      hs.unstaged (hh b.1) accepts
    refine ⟨_, answers_batch hi rfl rfl, hs.committed staging, fun k => ?_⟩
    change (next.commit.rows (d.tableName k)).toList = _
    rw [rowsOf_concat]
    by_cases hk : b.1 = k
    · subst hk
      rw [if_pos rfl]
      exact staging.rows_commit
    · rw [if_neg hk, List.append_nil, staging.rows_commit_of_ne (d.tableName_ne (Ne.symm hk))]
      exact hh k
  commit batches m h := by
    obtain ⟨hs, hh⟩ := h
    have released := Memory.released (m := m.commit) (hs.releasable.resolve_left id)
    refine ⟨_, .cons rfl (.cons released .nil), fun k => ⟨Memory.contains_commit (hs.present k), ?_⟩⟩
    change (m.commit.rows (d.tableName k)).toList = _
    rw [Memory.rows_commit_of_unstaged hs.unstaged]
    exact hh k
  rollback batches m h := by
    obtain ⟨hs, hh⟩ := h
    have released := Memory.released (m := m.rollback) (hs.releasable.resolve_left id)
    exact ⟨_, .cons rfl (.cons released .nil), fun k => ⟨hs.present k, hh k⟩⟩

/-! ## Databases -/

namespace Sqlite

/-- A database hosts a dataset with a base that the engine leaves to others. -/
def host (d : Dataset) (unreserved : ¬ Reserves d.base) : Host Database d where
  opening made db := db.Houses d made (fun _ => []) none
  between batches db := db.Houses d TableKind.all (rowsOf batches) (some db.contents)
  closed batches db := Housed d TableKind.all (rowsOf batches) db.contents
  drop k db h := by
    obtain ⟨c, hc, hh⟩ := h.contents.drop unreserved k
    exact ⟨_, Database.change_of_ok h.native hc, h.native, h.before_eq, hh⟩
  check k db h := by
    refine ⟨db.keep .lookUp, ?_, h.native, h.before_eq, h.contents⟩
    change db.tableExists _ = _
    simp [Database.tableExists, Database.read, h.native, h.contents.absent]
  create made k db hk h := by
    obtain ⟨c, hc, hh⟩ := h.contents.create unreserved hk
    exact ⟨_, Database.change_of_ok h.native hc, h.native, h.before_eq, hh⟩
  start db h := by
    refine ⟨{ db with before := some db.contents }, ?_, h.native, rfl, h.contents⟩
    change db.beginTransaction = _
    rw [Database.beginTransaction, h.before_eq]
  batch batches b db ha h := by
    have accepts := ha b.1
    rw [rowsOf_concat, if_pos rfl] at accepts
    obtain ⟨db', hi, hh⟩ := Database.insertRows_new h unreserved b.2 {} accepts
    rw [Nat.zero_add] at hi
    simp only [← rowsOf_concat] at hh
    refine ⟨{ db' with before := some db'.contents }, answers_batch (t := db')
      (u := { db' with before := none }) hi ?_ rfl, hh.native, rfl, hh.contents⟩
    change db'.commit = _
    rw [Database.commit, hh.before_eq]
  commit batches db h := by
    refine ⟨{ db with before := none, prepared := [] }, .cons (t := { db with before := none }) ?_
      (.cons rfl .nil), h.contents⟩
    change db.commit = _
    rw [Database.commit, h.before_eq]
    rfl
  rollback batches db h := by
    refine ⟨_, .cons (t := db.rollback) rfl (.cons rfl .nil), ?_⟩
    change Housed d TableKind.all (rowsOf batches) db.rollback.contents
    rw [Database.rollback, h.before_eq]
    exact h.contents

end Sqlite

/-! ## Both -/

open Sqlite

/-- The database has the dataset's tables as the memory has them, with the cells of the same rows,
and no other tables. -/
structure Mirrors (d : Dataset) (m : Memory) (db : Database) : Prop where
  tables : ∀ k, (db.contents.table? (d.tableName k)).map
      (fun t => t.rows.toList.map fun e => some e.cells) =
    (m.tables.get? (d.tableName k)).map fun rows => rows.toList.map (cells? k)
  only : ∀ name t, db.contents.table? name = some t → ∃ k, fold name = fold (d.tableName k)

theorem SentFrom.accepts {items : List Item} {calls : List Call} (h : SentFrom items calls)
    (distinct : (({} : Assembler).opened (eventsOf items)).Nodup)
    (few : inRange 0 (eventsOf items)) (k : TableKind) : k.Accepts (sentTo k calls) := by
  obtain ⟨front, a, R, ⟨rest, rfl⟩, ht, hs⟩ := h
  have hrun := Assembler.run_of_takeAll ht
  rw [Assembler.eventsOf_append ht] at distinct few
  rw [Assembler.opened_append hrun] at distinct
  have keyed := Assembler.keyed_of_run hrun (inRange_of_append few) (List.nodup_append.mp distinct).1
  exact (keyed.accepts k).front (hs k)

theorem Mirrors.of_closed {d : Dataset} {unreserved : ¬ Reserves d.base} {batches : List Batch}
    {m : Memory} {db : Database} (ha : Acceptable batches) (hm : (Host.memory d).closed batches m)
    (hdb : (host d unreserved).closed batches db) : Mirrors d m db := by
  constructor
  · intro k
    obtain ⟨t, ht, holds⟩ := hdb.present k k.mem_all
    obtain ⟨hc, hrows⟩ := hm k
    obtain ⟨rows, hget⟩ := Option.isSome_iff_exists.mp hc
    rw [Memory.rows, hget, Option.getD_some, k.keep_of_nodup (ha k).distinct] at hrows
    rw [ht, hget, Option.map_some, Option.map_some, holds.cells, hrows]
  · intro name t ht
    obtain ⟨k, -, he⟩ := hdb.only _ t ht
    exact ⟨k, he⟩

variable {ω : Type} [Watcher ω]

/-- Where no feature is opened twice a host is asked for smooth requests only, and any other host
that is given the same input is left by the same batches. -/
theorem load_on_hosts {σ τ : Type} [Store σ] [Store τ] {d : Dataset} (H : Host σ d) (G : Host τ d)
    {s : σ} {t : τ} (hs : H.opening [] s) (ht : G.opening [] t) {input : Input} {options : Options}
    {items : List Item} (hi : input.items options.encoding = .ok items) (w : ω)
    (distinct : (({} : Assembler).opened (eventsOf items)).Nodup)
    (few : inRange 0 (eventsOf items)) :
    let x := load input (Logged.mk s []) d.base w options
    (∀ c ∈ x.store.calls, c = c.request.smooth) ∧
    ∃ batches t', Acceptable batches ∧ H.closed batches x.store.store ∧ G.closed batches t' ∧
      Answers s x.store.calls x.store.store ∧ Answers t x.store.calls t' := by
  intro x
  have hanswered : Answers s x.store.calls x.store.store :=
    (load_answered input s s d.base w options).1
  have hp : Protocol d options.dropExisting x.store.calls x.result.isOk :=
    load_calls (fun f hf => by rw [hi] at hf; cases hf) d.ofBase_base s w
  have accepts := (load_sends hi s d w).1.accepts distinct few
  obtain ⟨batches, ending, ha, he, hcalls, hclosed⟩ := H.calls_eq hs hanswered hp accepts
  obtain ⟨t', hanswers, hclosed'⟩ := G.answers_load options.dropExisting ht ha he
  refine ⟨fun c hc => ?_, batches, t', ha, hclosed, hclosed', hanswered, hcalls ▸ hanswers⟩
  rw [hcalls] at hc
  obtain ⟨r, -, rfl⟩ := List.mem_map.mp hc
  rfl

theorem Loaded.duplicateTags_eq_zero {d : Dataset} {counts : Counts} {R : List Placed}
    {report : Report} {m : Memory} (h : Loaded d counts R report m) {k : TableKind}
    (accepts : k.Accepts (rowsFor k R)) : (report.totals.get k).duplicateTags = 0 := by
  have hrows := h.rows k
  have hall := h.duplicates k
  rw [k.keep_of_nodup accepts.distinct] at hrows
  rw [← Array.length_toList, hrows] at hall
  omega

/-- Where no feature is opened twice, and none has more nodes or members than can be numbered, a load
into an empty database ends as one into an empty memory does, with the same result and the cells of
the same rows. On the way no row meets the key of another, and no tag is repeated. -/
theorem load_in_database_mirrors_memory (input : Input) (d : Dataset) (w : ω) (options : Options)
    (unreserved : ¬ Reserves d.base)
    (distinct : (({} : Assembler).opened (input.events options.encoding)).Nodup)
    (few : inRange 0 (input.events options.encoding)) :
    let memory := load input ({} : Memory) d.base w options
    let database := load input ({} : Database) d.base w options
    let log := (load input (Logged.mk ({} : Database) []) d.base w options).store
    database.result = memory.result ∧ Mirrors d memory.store database.store ∧
    (∀ report, database.result = .ok report → ∀ k, (report.totals.get k).duplicateTags = 0) ∧
    log.store = database.store ∧ (∀ c ∈ log.calls, c = c.request.smooth) ∧
    (load input (Logged.mk ({} : Memory) []) d.base w options).store.calls = log.calls := by
  intro memory database log
  have hm : Opening False d [] ({} : Memory) :=
    .of_absent (fun _ => rfl) rfl (Or.inr rfl) (Or.inr rfl)
  have hdb : ({} : Database).Houses d [] (fun _ => []) none :=
    ⟨rfl, rfl, fun _ hk => (List.not_mem_nil hk).elim, fun _ _ ht => (nomatch ht), rfl⟩
  cases hi : input.items options.encoding with
  | error f =>
    simp only [memory, database, log, load_of_unread hi]
    exact ⟨trivial, ⟨fun _ => rfl, fun _ _ ht => (nomatch ht)⟩, fun _ hr => (nomatch hr), trivial,
      fun _ hc => (List.not_mem_nil hc).elim, trivial⟩
  | ok items =>
    have distinct : (({} : Assembler).opened (eventsOf items)).Nodup := by
      rwa [Input.events, hi] at distinct
    have few : inRange 0 (eventsOf items) := by rwa [Input.events, hi] at few
    obtain ⟨smooth, batches, t, ha, hclosed, hclosed', hanswers, hanswers'⟩ :=
      load_on_hosts (Host.memory d) (host d unreserved) hm hdb hi w distinct few
    have beside {τ : Type} [Store τ] (t : τ) :=
      (load_answered input ({} : Memory) t d.base w options).2
    obtain ⟨likeMemory, hmemory⟩ := beside _ _ hanswers
    obtain ⟨likeDatabase, hdatabase⟩ := beside _ _ hanswers'
    obtain ⟨-, hlog⟩ := beside _ _ (hanswers'.logged [])
    have hresult : database.result = memory.result :=
      likeDatabase.result.trans likeMemory.result.symm
    have hcalls : log.calls = _ := congrArg Logged.calls hlog
    refine ⟨hresult, ?_, fun report hr k => ?_, ?_, ?_, hcalls.symm⟩
    · rw [hmemory, hdatabase]
      exact .of_closed ha hclosed hclosed'
    · have hl := load_spec drives_memory hi w hm
      rw [← hresult, hr] at hl
      obtain ⟨counts, R, hassembled, -, hloaded⟩ := hl
      obtain ⟨a, ht, -⟩ := assembled_eq_ok.mp hassembled
      exact hloaded.duplicateTags_eq_zero
        ((Assembler.keyed_of_run (Assembler.run_of_takeAll ht) few distinct).accepts k)
    · exact (congrArg Logged.store hlog).trans hdatabase.symm
    · rw [hcalls]
      exact smooth

theorem load_in_database_mirrors_memory_of_replaced_relation :
    let text := "<way id=\"7\"><nd ref=\"5\"/><tag k=\"a\" v=\"b\"/></way>" ++
      "<relation id=\"7\"><member type=\"way\" ref=\"7\"/>" ++
      "<relation id=\"8\"><member type=\"way\" ref=\"7\"/></relation>"
    let memory := load (.ofText text) ({} : Memory) "city" Unwatched.mk { batchSize := 1 }
    let database := load (.ofText text) ({} : Database) "city" Unwatched.mk { batchSize := 1 }
    ({} : Assembler).opened ((Input.ofText text).events none) =
      [(.way, 7), (.relation, 7), (.relation, 8)] ∧
    memory.store.rows "city_way_member" =
      #[.member ⟨7, 7, .way, none, 1⟩, .member ⟨8, 7, .way, none, 1⟩] ∧
    database.result = memory.result ∧
    Mirrors ⟨"city", by decide⟩ memory.store database.store := by
  intro text memory database
  have opened : ({} : Assembler).opened ((Input.ofText text).events none) =
      [(.way, 7), (.relation, 7), (.relation, 8)] := by decide +kernel
  have rows : memory.store.rows "city_way_member" =
      #[.member ⟨7, 7, .way, none, 1⟩, .member ⟨8, 7, .way, none, 1⟩] := by decide +kernel
  have unreserved : ¬ Reserves "city" := by
    rw [Reserves, String.startsWith_string_iff]
    decide +kernel
  have h := load_in_database_mirrors_memory (.ofText text) ⟨"city", by decide⟩ Unwatched.mk
    { batchSize := 1 } unreserved (by rw [opened]; decide) (by decide +kernel)
  exact ⟨opened, rows, h.1, h.2.1⟩

end MapTables
