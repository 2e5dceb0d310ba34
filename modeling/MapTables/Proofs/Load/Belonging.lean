import MapTables.Proofs.Assembly.History
import MapTables.Proofs.Assembly.Keys
import MapTables.Proofs.Load.FirstFault
import MapTables.Proofs.Load.Sent
import MapTables.Proofs.Store.Housed

/-!
# Rows where they belong

The assembler tells for which table a row is, and a database looks again whether the row belongs
there. It always does, so no load is ever turned away for that. A node's row has numbers that a
database can hold.
-/

namespace MapTables

structure NodeRow.IsSound (n : NodeRow) : Prop where
  x : n.x.isFinite = true
  y : n.y.isFinite = true
  srid : n.srid = 4326
  elevation : ∀ e, n.elevation = some e → e.isFinite = true

/-- What was asked for was not turned away as something that does not belong there. -/
def Unrejected {α : Type} (answer : Except StoreFault α) : Prop :=
  ∀ reason, answer ≠ .error (.rejected reason)

/-! ## The rows of one event -/

theorem Tags.isFinite_of_elevation? {t : Tags} {e : Float} (h : t.elevation? = some e) :
    e.isFinite = true := by
  unfold elevation? at h
  obtain ⟨text, -, h⟩ := Option.bind_eq_some_iff.mp h
  exact (Option.filter_eq_some_iff.mp h).2

theorem Feature.isSound_of_mem_rows {f : Feature} {r : Placed} {n : NodeRow} (h : r ∈ f.rows)
    (hn : r.2 = .node n) : n.IsSound := by
  unfold rows at h
  rw [List.mem_cons, List.mem_append] at h
  rcases h with rfl | h | h
  · obtain ⟨id, edit, tags, p | refs | _⟩ := f
    · cases hn
      exact ⟨p.finite.2, p.finite.1, rfl, fun _ => Tags.isFinite_of_elevation?⟩
    · cases hn
    · cases hn
  · obtain ⟨_, -, rfl⟩ := List.mem_map.mp h
    cases hn
  · obtain ⟨_, -, rfl⟩ := List.mem_map.mp h
    cases hn

structure Placed.Fits (r : Placed) : Prop where
  takes : r.1.takes r.2 = true
  sound : ∀ n, r.2 = .node n → n.IsSound

namespace Assembler

variable {a b : Assembler} {e : Event} {s : Step} {es : List Event} {R : List Placed}

theorem Takes.fits (h : a.Takes e s) : ∀ r ∈ s.rows, r.Fits := by
  intro r hr
  rcases h.rows_cases with hn | ⟨f, -, hrows⟩ | ⟨f, row, -, -, -, -, hrows⟩
  · rw [hn] at hr
    cases hr
  · rw [hrows] at hr
    exact ⟨(Feature.mem_rows hr).1, fun _ => Feature.isSound_of_mem_rows hr⟩
  · rw [hrows, List.mem_singleton] at hr
    subst hr
    exact ⟨by simp [TableKind.takes], fun n hn => by cases hn⟩

theorem Takes.ownerKind (h : a.Takes e s) {k : FeatureKind} (hk : s.change = .closed k) :
    ∀ r ∈ s.rows, r.1.ownerKind = k := by
  intro r hr
  cases h with
  | opens => rw [openWith_change] at hk; cases hk
  | closes isOpen kind =>
    cases hk
    exact (congrArg Prod.fst (Feature.mem_rows hr).2.1).trans kind
  | _ => cases hk

theorem fits_of_run (h : a.run es = .ok (b, R)) : ∀ r ∈ R, r.Fits := by
  induction es generalizing a R with
  | nil =>
    cases h
    exact List.forall_mem_nil _
  | cons e es ih =>
    obtain ⟨s, S, hs, hr, rfl⟩ := run_cons_eq_ok.mp h
    exact List.forall_mem_append.mpr ⟨(takes_of_step hs).fits, ih hr⟩

end Assembler

theorem Assembling.fits_history (es : List Event) :
    ∀ r ∈ (blank.dispatchAll es).2.sink.toList, r.Fits :=
  history_induction (P := fun _ _ R => ∀ r ∈ R, r.Fits) (List.forall_mem_nil _)
    (fun _ _ _ _ _ h _ => h) (fun _ _ _ _ _ h hs => List.forall_mem_append.mpr ⟨h, hs.fits⟩) es

/-! ## Databases -/

namespace Sqlite.Database

variable {k : TableKind} {table : String} {r : Row}

theorem put_unrejected (d : Database) (table : String) (t : StoredTable) (cells : List Cell) :
    Unrejected (d.put k table t cells).1 := by
  intro reason hr
  unfold put at hr
  simp only at hr
  split at hr
  · split at hr <;> cases hr
  · cases hr

theorem change_unrejected (d : Database) (operation : String)
    (f : Contents → Except SqlFault Contents) : Unrejected (d.change operation f).1 := by
  intro reason hr
  unfold change at hr
  split at hr <;> cases hr

theorem insertRow_unrejected (h : k.takes r = true) (d : Database) (table : String) :
    Unrejected (d.insertRow k table r).1 := by
  intro reason hr
  rw [← isSome_cells?] at h
  unfold insertRow at hr
  simp only at hr
  split at hr
  · cases hr
  · split at hr
    · next hc => rw [hc] at h; cases h
    · cases hr
    · exact put_unrejected _ _ _ _ reason hr

theorem insertRows_unrejected {rows : List Row} (h : ∀ r ∈ rows, k.takes r = true) (d : Database)
    (table : String) (done : Stored) : Unrejected (d.insertRows k table done rows).1 := by
  induction rows generalizing d done with
  | nil => exact fun _ hr => by cases hr
  | cons r rows ih =>
    obtain ⟨hr, h⟩ := List.forall_mem_cons.mp h
    have hfirst := insertRow_unrejected hr d table
    unfold insertRows
    split
    · next f d' hf =>
      rw [hf] at hfirst
      exact fun reason he => hfirst reason (by cases he; rfl)
    · exact ih h _ _
    · exact ih h _ _

theorem ask_unrejected {request : Request} (d : Database)
    (h : ∀ k table rows, request = .insert k table rows → ∀ r ∈ rows, k.takes r = true) :
    Unrejected (d.ask request).1 := by
  intro reason hr
  cases request with
  | insert k table rows => exact insertRows_unrejected (h k table rows rfl) d table {} reason hr
  | tableExists table =>
    simp only [ask, tableExists] at hr
    split at hr <;> cases hr
  | dropTable table => exact change_unrejected d _ _ reason hr
  | createTable k table => exact change_unrejected d _ _ reason hr
  | beginTransaction =>
    simp only [ask, beginTransaction] at hr
    split at hr <;> cases hr
  | commit =>
    simp only [ask, commit] at hr
    split at hr <;> cases hr
  | rollback => cases hr
  | release => cases hr

theorem insertRow_stores {d : Database} {t : StoredTable} {cells : List Cell}
    (target : (d.read >>= fun c => c.target k table) = .ok t) (hc : cells? k r = some cells)
    (new : t.hasKey (t.entry cells) = false) : (d.insertRow k table r).1 = .ok true := by
  unfold insertRow
  simp only [target, hc, put, new, Bool.false_eq_true, if_false]

end Sqlite.Database

/-- A database takes the row in the table where it is sent: it never turns it away, and stores it
in a table that can be filled and has no row with the same key. -/
structure Placed.IsStorable (r : Placed) : Prop where
  takes : r.1.takes r.2 = true
  unrejected : ∀ (d : Sqlite.Database) (table : String), Unrejected (d.insertRow r.1 table r.2).1
  stored : ∃ cells, Sqlite.cells? r.1 r.2 = some cells ∧
    ∀ (d : Sqlite.Database) (table : String) (t : Sqlite.StoredTable),
      (d.read >>= fun c => c.target r.1 table) = .ok t → t.hasKey (t.entry cells) = false →
        (d.insertRow r.1 table r.2).1 = .ok true

theorem Placed.Fits.isStorable {r : Placed} (h : r.Fits) : r.IsStorable := by
  refine ⟨h.takes, Sqlite.Database.insertRow_unrejected h.takes, ?_⟩
  have hc := h.takes
  rw [← Sqlite.isSome_cells?] at hc
  obtain ⟨cells, hc⟩ := Option.isSome_iff_exists.mp hc
  exact ⟨cells, hc, fun _ _ _ target new => Sqlite.Database.insertRow_stores target hc new⟩

/-! ## Calls -/

theorem Answers.exists_ask {σ : Type} [Store σ] {s t : σ} {calls : List Call} {c : Call}
    (h : Answers s calls t) (hc : c ∈ calls) : ∃ u : σ, (Store.ask c.request u).1 = c.answer := by
  induction h with
  | nil => cases hc
  | @cons s _ _ _ _ answer _ ih =>
    rcases List.mem_cons.mp hc with rfl | hc
    · exact ⟨s, congrArg Prod.fst answer⟩
    · exact ih hc

theorem SentFrom.takes {items : List Item} {calls : List Call} (h : SentFrom items calls) {c : Call}
    (hc : c ∈ calls) {k : TableKind} {table : String} {rows : List Row}
    (request : c.request = .insert k table rows) : ∀ r ∈ rows, k.takes r = true := by
  obtain ⟨front, a, R, -, ht, hs⟩ := h
  intro r hr
  have sent : r ∈ sentTo k calls := by
    refine List.mem_flatMap.mpr ⟨c, hc, ?_⟩
    rw [request, Request.rowsFor, if_pos rfl]
    exact hr
  obtain ⟨⟨j, _⟩, hp, rfl⟩ := List.mem_map.mp ((hs k).subset sent)
  obtain ⟨hR, hk⟩ := List.mem_filter.mp hp
  rw [← beq_iff_eq.mp hk]
  exact (Assembler.fits_of_run (Assembler.run_of_takeAll ht) _ hR).takes

section

variable {ω : Type} [Watcher ω]

theorem calls_unrejected (i : Input) (d : Sqlite.Database) (base : String) (w : ω)
    (options : Options) :
    ∀ c ∈ (load i (Logged.mk d []) base w options).store.calls, Unrejected c.answer := by
  have answers := (load_answered i d d base w options).1
  intro c hc
  obtain ⟨u, hu⟩ := answers.exists_ask hc
  rw [← hu]
  refine Sqlite.Database.ask_unrejected u fun k table rows request => ?_
  cases hd : Dataset.ofBase base with
  | error f =>
    rw [load, hd] at hc
    cases hc
  | ok dataset =>
    obtain rfl := Dataset.base_of_ofBase hd
    cases hi : i.items options.encoding with
    | error f =>
      rw [load_of_unread hi] at hc
      cases hc
    | ok items => exact (load_sends hi d dataset w).1.takes hc request

end

/-! ## Faults -/

def LoadFault.refusal? : LoadFault → Option StoreFault
  | .notWritten _ f | .refused _ f | .notReleased f => some f
  | _ => none

/-- A fault about a refusal of the store is about one that a call was answered, or that a name is
none. -/
theorem Stage.Fails.refusal {s : Stage} {m : Moment} {f : LoadFault} {g : StoreFault}
    (h : s.Fails m f) (hg : f.refusal? = some g) :
    (∃ base e, g = .invalidName base e) ∨ ∃ r, m = .asked ⟨r, .error g⟩ := by
  cases h with
  | unnamed => cases hg; exact Or.inl ⟨_, _, rfl⟩
  | unopened | found | unread | cancelled | misplaced | unfinished => cases hg
  | _ => cases hg; exact Or.inr ⟨_, rfl⟩

theorem Course.refusal {drop : Bool} {start : Stage} {trace : List Moment} {f : LoadFault}
    {g : StoreFault} (h : Course drop start trace (some f)) (hg : f.refusal? = some g) :
    (∃ base e, g = .invalidName base e) ∨ ∃ r, ⟨r, .error g⟩ ∈ callsOf trace := by
  cases h with
  | failed leads fails _ =>
    refine (fails.refusal hg).imp_right fun ⟨r, hm⟩ => ⟨r, ?_⟩
    rw [callsOf_append, hm]
    exact List.mem_append_right _ List.mem_cons_self

theorem result_unrejected {ω : Type} [Watcher ω] (i : Input) (d : Sqlite.Database) (base : String)
    (w : ω) (options : Options) {f : LoadFault} {reason : String}
    (h : (load i d base w options).result = .error f) : f.refusal? ≠ some (.rejected reason) := by
  intro hg
  obtain ⟨trace, fault, course, hcalls, -, hfault⟩ := load_follows_course i d base w options
  rw [(load_overheard i d base w options).1.result] at h
  rw [(hfault f).mp h] at course
  rcases course.refusal hg with ⟨base, e, he⟩ | ⟨r, hr⟩
  · cases he
  · rw [hcalls] at hr
    exact calls_unrejected i d base _ options _ hr reason rfl

open Assembling

/-- Whatever events come, a database takes each row where it is sent. A node's row has finite
coordinates in degrees and no elevation or a finite one, and what comes with the end of a feature
goes to the tables of its kind. So no load into a database, whatever that holds, has a request
turned away because a row does not belong there, or ends with such a fault. -/
theorem rows_belong_where_sent :
    (∀ es, ∀ r ∈ (blank.dispatchAll es).2.sink.toList,
      r.IsStorable ∧ ∀ n, r.2 = .node n → n.IsSound) ∧
    (∀ es e k, (dispatch e (blank.dispatchAll es).2).1 = .ok (.closed k) →
      ∃ rows, (dispatch e (blank.dispatchAll es).2).2.sink.toList =
        (blank.dispatchAll es).2.sink.toList ++ rows ∧ ∀ r ∈ rows, r.1.ownerKind = k) ∧
    ∀ (ω : Type) [Watcher ω] (i : Input) (d : Sqlite.Database) (base : String) (w : ω)
      (options : Options),
      (∀ c ∈ (load i (Logged.mk d []) base w options).store.calls, Unrejected c.answer) ∧
      ∀ fault reason, (load i d base w options).result = .error fault →
        fault.refusal? ≠ some (.rejected reason) := by
  refine ⟨fun es r hr => ?_, fun es e k hk => ?_, fun ω _ i d base w options => ⟨?_, ?_⟩⟩
  · have h := fits_history es r hr
    exact ⟨h.isStorable, h.sound⟩
  · cases hs : (blank.dispatchAll es).2.assembler.step e with
    | error fault =>
      rw [dispatch_of_fault hs] at hk
      cases hk
    | ok s =>
      rw [dispatch_of_step hs] at hk ⊢
      refine ⟨s.rows, toList_enqueueAll _ _, ?_⟩
      exact (Assembler.takes_of_step hs).ownerKind (Except.ok.inj hk)
  · exact calls_unrejected i d base w options
  · exact fun fault reason h => result_unrejected i d base w options h

example :
    let text := "<way id=\"7\"><tag k=\"a\" v=\"b\"/></way>"
    let outcome := load (.ofText text) (Logged.mk ({} : Sqlite.Database) []) "city" Unwatched.mk {}
    outcome.result.isOk = true ∧ sentTo .way outcome.store.calls = [.way { id := 7 }] ∧
      sentTo .wayTag outcome.store.calls = [.tag ⟨7, "a", "b"⟩] := by
  decide +kernel

end MapTables
