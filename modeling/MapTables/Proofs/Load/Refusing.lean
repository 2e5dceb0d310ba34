import MapTables.Proofs.Load.Cancelled
import MapTables.Proofs.Load.FirstFault

/-!
# Loads that refuse to overwrite

A load that may not drop tables and finds one of them there has only looked so far. It ends as
every load that fails: what is staged is taken back and the store is let go, also where it was
somebody else who staged rows and began a transaction.
-/

namespace MapTables

variable {base table : String}

theorem lookUp_of_opening {d : Dataset} {before rest : List Request} {r : Request}
    (h : before ++ .tableExists table :: rest = openingRequests d false) (hr : r ∈ before) :
    r.method = .tableExists := by
  unfold openingRequests at h
  rw [if_neg Bool.false_ne_true, List.nil_append, List.append_assoc] at h
  rcases List.append_eq_append_iff.mp h with ⟨more, hlooks, -⟩ | ⟨more, -, hmakes⟩
  · have hm : r ∈ d.tableNames.map Request.tableExists := hlooks ▸ List.mem_append_left _ hr
    obtain ⟨_, -, rfl⟩ := List.mem_map.mp hm
    rfl
  · -- Once a table is made the load looks for no other.
    have hm : Request.tableExists table ∈
        d.tables.map (fun t => Request.createTable t.1 t.2) ++ [.beginTransaction] := by
      rw [hmakes]
      exact List.mem_append_right _ List.mem_cons_self
    simp at hm

/-- Up to the table that is found the load only looks for tables. Behind it the load takes back what
is not final and lets the store go. -/
theorem Course.looks {document : Except ReadFault (List Item)} {trace : List Moment}
    (h : Course false (.start base document) trace (some (.tableExists table))) :
    ∃ looks ends, callsOf trace = looks ++ ends ∧
      (∀ c ∈ looks, c.request.method = .tableExists) ∧
      ends.map Call.request = [.rollback, .release] ∧ ⟨.tableExists table, .ok true⟩ ∈ looks := by
  cases h with
  | @failed trace t m f ends h fails he =>
    cases fails with
    | @found _ requests _ =>
      obtain ⟨d, -, hr⟩ := h.asks
      refine ⟨callsOf trace ++ [⟨.tableExists table, .ok true⟩], ends, ?_, fun c hc => ?_, he,
        List.mem_append_right _ List.mem_cons_self⟩
      · rw [callsOf_append, List.append_assoc]
        exact congrArg (callsOf trace ++ ⟨.tableExists table, .ok true⟩ :: ·) (callsOf_asked ends)
      · rw [List.mem_append, List.mem_singleton] at hc
        rcases hc with hc | rfl
        · exact lookUp_of_opening hr (List.mem_map_of_mem hc)
        · rfl

namespace Memory

variable {m t : Memory} {calls : List Call}

theorem ask_lookUp {r : Request} (h : r.method = .tableExists) (m : Memory) : (ask r m).2 = m := by
  cases r with
  | tableExists table => rfl
  | _ => cases h

theorem answers_lookUps (h : Answers m calls t)
    (hc : ∀ c ∈ calls, c.request.method = .tableExists) :
    t = m ∧ (⟨.tableExists table, .ok true⟩ ∈ calls → m.tables.contains table = true) := by
  induction h with
  | nil => exact ⟨rfl, nofun⟩
  | @cons s t u c calls answer rest ih =>
    obtain ⟨hfirst, hrest⟩ := List.forall_mem_cons.mp hc
    obtain rfl : s = t := (ask_lookUp hfirst s).symm.trans (congrArg Prod.snd answer)
    obtain ⟨hu, hfound⟩ := ih hrest
    refine ⟨hu, fun hm => ?_⟩
    rcases List.mem_cons.mp hm with rfl | hm
    · exact Except.ok.inj (congrArg Prod.fst answer)
    · exact hfound hm

theorem takenBack_eq (m : Memory) : takenBack m =
    { m with
      staged := #[]
      inTransaction := false
      rollbacks := m.rollbacks + 1
      releases := if m.refusesRelease then m.releases else m.releases + 1 } := by
  change (release m.rollback).2 = _
  unfold release
  cases hr : m.refusesRelease <;> simp [rollback, hr]

end Memory

section

variable {σ ω : Type}

def Outcome.found? (x : Outcome σ ω) : Option String :=
  match x.result with
  | .error (.tableExists table) => some table
  | _ => none

theorem Outcome.found?_eq_some {x : Outcome σ ω} :
    x.found? = some table ↔ x.result = .error (.tableExists table) := by
  unfold found?
  split
  · next h => simp [h]
  · next h => exact iff_of_false nofun (h table)

variable [Watcher ω]

/-- A load that may not drop tables and reports one that is there has changed no table. It has taken
back what was staged, ended the transaction that was open and let the store go, so all is as before
just if nothing was staged and no transaction was open. -/
theorem load_refusing_keeps_tables (i : Input) (m : Memory) (base : String) (w : ω)
    (options : Options) (keeps : options.dropExisting = false) {table : String}
    (h : (load i m base w options).result = .error (.tableExists table)) :
    let after := (load i m base w options).store
    m.tables.contains table = true ∧
    after = { m with
      staged := #[]
      inTransaction := false
      rollbacks := m.rollbacks + 1
      releases := if m.refusesRelease then m.releases else m.releases + 1 } ∧
    (after.tables = m.tables ∧ after.staged = m.staged ∧ after.inTransaction = m.inTransaction ↔
      m.staged = #[] ∧ m.inTransaction = false) := by
  intro after
  obtain ⟨alike, hstore⟩ := load_overheard i m base w options
  obtain ⟨trace, fault, course, hcalls, -, hfault⟩ := load_follows_course i m base w options
  obtain rfl := (hfault _).mp (alike.result.symm.trans h)
  rw [keeps] at course
  obtain ⟨looks, ends, htrace, hlooks, hends, hfound⟩ := course.looks
  have answers := (load_answered i m m base (Overheard.mk w [] false) options).1
  rw [hstore, ← hcalls, htrace] at answers
  obtain ⟨t, ha, hb⟩ := answers.of_append
  obtain ⟨rfl, hthere⟩ := Memory.answers_lookUps ha hlooks
  have undone : Answers t [⟨.rollback, (Store.ask .rollback t).1⟩,
      ⟨.release, (Store.ask .release (Store.ask .rollback t).2).1⟩] (takenBack t) :=
    .cons rfl (.cons rfl .nil)
  have hafter : after = takenBack t := (hb.unique undone hends).2
  rw [hafter, Memory.takenBack_eq]
  exact ⟨hthere hfound, rfl, fun ⟨_, hs, ho⟩ => ⟨hs.symm, ho.symm⟩,
    fun ⟨hs, ho⟩ => ⟨rfl, hs.symm, ho.symm⟩⟩

theorem load_refusing_keeps_tables_of_open_transaction :
    let m : Memory := {
      tables := ⟨[("t_way", #[.way { id := 1 }])]⟩
      staged := #[("t_way", .way { id := 2 })]
      inTransaction := true }
    let x := load (.ofText "<osm/>") m "t" Unwatched.mk {}
    ({} : Options).dropExisting = false ∧ x.result = .error (.tableExists "t_way") ∧
    x.store.tables = m.tables ∧ x.store.staged = #[] := by
  intro m x
  have h : x.result = .error (.tableExists "t_way") :=
    Outcome.found?_eq_some.mp (by decide +kernel)
  have hx := (load_refusing_keeps_tables (.ofText "<osm/>") m "t" Unwatched.mk {} rfl h).2.1
  refine ⟨rfl, h, ?_⟩
  rw [show x.store = _ from hx]
  exact ⟨rfl, rfl⟩

/-- The rows that somebody else staged are taken back, and the transaction that was open ends. -/
theorem load_refusing_ends_open_transaction :
    let m : Memory := {
      tables := ⟨[("t_way", #[])]⟩
      staged := #[("t_way", .way { id := 1 })]
      inTransaction := true }
    let x := load (.ofText "<osm/>") m "t" Unwatched.mk {}
    ({} : Options).dropExisting = false ∧ x.result = .error (.tableExists "t_way") ∧
    x.store.staged ≠ m.staged ∧ x.store.inTransaction ≠ m.inTransaction := by
  intro m x
  exact ⟨rfl, Outcome.found?_eq_some.mp (by decide +kernel), by decide +kernel, by decide +kernel⟩

end

end MapTables
