import MapTables.Proofs.Load.Protocol
import MapTables.Proofs.Load.Sent
import MapTables.Proofs.Store.Replay
import MapTables.Proofs.Table.Key

/-!
# Stores that host a dataset

A store hosts a dataset if it grants whatever a load's script asks for: the tables, where
there were none, and batches of rows with different keys. Its answers are then known from
the requests.
-/

namespace MapTables

/-! ## Smooth calls -/

/-- The answer where no table is there yet and all rows are new. -/
def Request.smoothAnswer : (r : Request) → r.Answer
  | .tableExists _ => false
  | .insert _ _ rows => { written := rows.length }
  | .dropTable _ | .createTable .. | .beginTransaction | .commit | .rollback | .release => ()

def Request.smooth (r : Request) : Call := ⟨r, .ok r.smoothAnswer⟩

theorem Request.passes_smooth (r : Request) : r.smooth.passes = true := by cases r <;> rfl

theorem Request.map_request_smooth (rs : List Request) : (rs.map smooth).map Call.request = rs := by
  rw [List.map_map]
  exact List.map_id rs

variable {σ : Type} [Store σ]

theorem Answers.smooth {α : Type} {q : α → Request} {I : List α → σ → Prop} (l : List α)
    (step : ∀ front a after s, l = front ++ a :: after → I front s →
      ∃ t, Store.ask (q a) s = (.ok (q a).smoothAnswer, t) ∧ I (front ++ [a]) t) {s : σ}
    (hs : I [] s) : ∃ t, Answers s ((l.map q).map Request.smooth) t ∧ I l t := by
  suffices h : ∀ after front s, l = front ++ after → I front s →
      ∃ t, Answers s ((after.map q).map Request.smooth) t ∧ I l t from h l [] s rfl hs
  intro after
  induction after with
  | nil =>
    intro front s hl hs
    rw [List.append_nil] at hl
    exact ⟨s, .nil, hl ▸ hs⟩
  | cons a after ih =>
    intro front s hl hs
    obtain ⟨t, ha, ht⟩ := step front a after s hl hs
    obtain ⟨u, hu, hI⟩ := ih (front ++ [a]) t (by simp [hl]) ht
    exact ⟨u, .cons ha hu, hI⟩

/-! ## Hosts -/

def rowsOf (batches : List Batch) (k : TableKind) : List Row :=
  batches.flatMap fun b => if b.1 = k then b.2 else []

/-- No table gets a row that it does not take, or two with one key. -/
def Acceptable (batches : List Batch) : Prop :=
  ∀ k : TableKind, k.Accepts (rowsOf batches k)

/-- How a store hosts a dataset: what it is like while tables are made, between two batches, and
after a load. -/
structure Host (σ : Type) [Store σ] (d : Dataset) where
  opening : List TableKind → σ → Prop
  between : List Batch → σ → Prop
  closed : List Batch → σ → Prop
  drop : ∀ k s, opening [] s → ∃ t,
    Store.ask (.dropTable (d.tableName k)) s = (.ok (), t) ∧ opening [] t
  check : ∀ k s, opening [] s → ∃ t,
    Store.ask (.tableExists (d.tableName k)) s = (.ok false, t) ∧ opening [] t
  create : ∀ made k s, k ∉ made → opening made s → ∃ t,
    Store.ask (.createTable k (d.tableName k)) s = (.ok (), t) ∧ opening (made ++ [k]) t
  start : ∀ s, opening TableKind.all s → ∃ t,
    Store.ask .beginTransaction s = (.ok (), t) ∧ between [] t
  batch : ∀ batches b s, Acceptable (batches ++ [b]) → between batches s → ∃ t,
    Answers s ((batchRequests d b).map Request.smooth) t ∧ between (batches ++ [b]) t
  commit : ∀ batches s, between batches s → ∃ t,
    Answers s ([.commit, .release].map Request.smooth) t ∧ closed batches t
  rollback : ∀ batches s, between batches s → ∃ t,
    Answers s ([.rollback, .release].map Request.smooth) t ∧ closed batches t

theorem rowsOf_append (batches more : List Batch) (k : TableKind) :
    rowsOf (batches ++ more) k = rowsOf batches k ++ rowsOf more k := List.flatMap_append

theorem rowsOf_concat (batches : List Batch) (b : Batch) (k : TableKind) :
    rowsOf (batches ++ [b]) k = rowsOf batches k ++ if b.1 = k then b.2 else [] := by
  rw [rowsOf_append]
  simp [rowsOf]

theorem Acceptable.of_append {batches more : List Batch} (h : Acceptable (batches ++ more)) :
    Acceptable batches := fun k => (h k).front ⟨_, (rowsOf_append batches more k).symm⟩

namespace Host

variable {d : Dataset} (H : Host σ d) {s : σ}

theorem answers_opening (drop : Bool) (h : H.opening [] s) :
    ∃ t, Answers s ((openingRequests d drop).map Request.smooth) t ∧ H.between [] t := by
  have named (q : String → Request) :
      d.tableNames.map q = TableKind.all.map fun k => q (d.tableName k) := List.map_map
  have placed : d.tables.map (fun t => Request.createTable t.1 t.2) =
      TableKind.all.map fun k => .createTable k (d.tableName k) := List.map_map
  have dropped : ∃ t, Answers s
      ((if drop then d.tableNames.map Request.dropTable else []).map Request.smooth) t ∧
        H.opening [] t := by
    cases drop with
    | true =>
      rw [if_pos rfl, named]
      exact Answers.smooth (I := fun _ => H.opening []) _ (fun _ k _ s _ => H.drop k s) h
    | false => exact ⟨s, .nil, h⟩
  have new (made : List TableKind) (k : TableKind) (after : List TableKind)
      (hat : TableKind.all = made ++ k :: after) : k ∉ made := by
    have := TableKind.nodup_all
    rw [hat] at this
    exact fun hk => (List.nodup_append.mp this).2.2 k hk k List.mem_cons_self rfl
  obtain ⟨s1, h1, ho1⟩ := dropped
  obtain ⟨s2, h2, ho2⟩ := Answers.smooth (q := fun k => .tableExists (d.tableName k))
    (I := fun _ => H.opening []) TableKind.all (fun _ k _ s _ => H.check k s) ho1
  obtain ⟨s3, h3, ho3⟩ := Answers.smooth (q := fun k => .createTable k (d.tableName k))
    (I := H.opening) TableKind.all (fun made k after s hat => H.create made k s (new _ _ _ hat)) ho2
  obtain ⟨s4, h4, hb⟩ := H.start s3 ho3
  refine ⟨s4, ?_, hb⟩
  rw [openingRequests, placed, named .tableExists, List.map_append, List.map_append,
    List.map_append]
  exact ((h1.append h2).append h3).append (.cons h4 .nil)

theorem answers_batches (batches done : List Batch) (h : H.between done s)
    (ha : Acceptable (done ++ batches)) :
    ∃ t, Answers s ((batches.flatMap (batchRequests d)).map Request.smooth) t ∧
      H.between (done ++ batches) t := by
  induction batches generalizing done s with
  | nil => exact ⟨s, .nil, by rwa [List.append_nil]⟩
  | cons b batches ih =>
    rw [List.append_cons] at ha ⊢
    obtain ⟨t, ht, hb⟩ := H.batch done b s ha.of_append h
    obtain ⟨u, hu, hu'⟩ := ih _ hb ha
    exact ⟨u, by rw [List.flatMap_cons, List.map_append]; exact ht.append hu, hu'⟩

theorem answers_script (drop : Bool) {batches : List Batch} (h : H.opening [] s)
    (ha : Acceptable batches) :
    ∃ t, Answers s ((script d drop batches).map Request.smooth) t ∧ H.between batches t := by
  obtain ⟨t, ht, hb⟩ := H.answers_opening drop h
  obtain ⟨u, hu, hu'⟩ := H.answers_batches batches [] hb ha
  exact ⟨u, by rw [script, List.map_append]; exact ht.append hu, hu'⟩

theorem answers_load (drop : Bool) {batches : List Batch} {ending : Request}
    (h : H.opening [] s) (ha : Acceptable batches) (he : ending = .commit ∨ ending = .rollback) :
    ∃ t, Answers s ((script d drop batches ++ [ending, .release]).map Request.smooth) t ∧
      H.closed batches t := by
  obtain ⟨t, ht, hb⟩ := H.answers_script drop h ha
  rw [List.map_append]
  rcases he with rfl | rfl
  · obtain ⟨u, hu, hc⟩ := H.commit batches t hb
    exact ⟨u, ht.append hu, hc⟩
  · obtain ⟨u, hu, hc⟩ := H.rollback batches t hb
    exact ⟨u, ht.append hu, hc⟩

end Host

/-! ## The calls of a host -/

theorem sentTo_eq (k : TableKind) (calls : List Call) :
    sentTo k calls = (calls.map Call.request).flatMap (Request.rowsFor k) := by
  rw [sentTo, List.flatMap_map]

theorem rowsFor_batch (d : Dataset) (b : Batch) (k : TableKind) :
    (batchRequests d b).flatMap (Request.rowsFor k) = if b.1 = k then b.2 else [] := by
  simp [batchRequests, Request.rowsFor]

theorem rowsFor_opening {d : Dataset} {drop : Bool} {requests : List Request} (k : TableKind)
    (h : requests ⊆ openingRequests d drop) : requests.flatMap (Request.rowsFor k) = [] := by
  rw [List.flatMap_eq_nil_iff]
  intro r hr
  have := not_insert_opening (h hr)
  cases r with
  | insert _ _ _ => exact (this rfl).elim
  | _ => rfl

theorem rowsFor_batches (d : Dataset) (batches : List Batch) (k : TableKind) :
    (batches.flatMap (batchRequests d)).flatMap (Request.rowsFor k) = rowsOf batches k := by
  rw [List.flatMap_assoc]
  simp only [rowsFor_batch]
  rfl

theorem rowsFor_script (d : Dataset) (drop : Bool) (batches : List Batch) (k : TableKind) :
    (script d drop batches).flatMap (Request.rowsFor k) = rowsOf batches k := by
  rw [script, List.flatMap_append, rowsFor_opening k fun _ h => h, List.nil_append,
    rowsFor_batches]

/-- Where requests break off in a batch, the batches behind it do not count. -/
theorem begun_of_front {d : Dataset} {batches : List Batch} {requests : List Request}
    (h : requests <+: batches.flatMap (batchRequests d)) :
    ∃ begun, requests <+: begun.flatMap (batchRequests d) ∧
      ∀ k, requests.flatMap (Request.rowsFor k) = rowsOf begun k := by
  induction batches generalizing requests with
  | nil => exact ⟨[], h, fun k => by rw [List.prefix_nil.mp h]; rfl⟩
  | cons b batches ih =>
    rw [List.flatMap_cons] at h
    rcases List.prefix_or_prefix_of_prefix h (List.prefix_append _ _) with hb | ⟨rest, rfl⟩
    · match requests with
      | [] => exact ⟨[], List.nil_prefix, fun k => rfl⟩
      | r :: rest =>
        refine ⟨[b], by rwa [List.flatMap_singleton], fun k => ?_⟩
        obtain ⟨rfl, hrest⟩ := List.cons_prefix_cons.mp hb
        have hnone : rest.flatMap (Request.rowsFor k) = [] := by
          rw [List.flatMap_eq_nil_iff]
          intro x hx
          have hx := hrest.subset hx
          simp only [List.mem_cons, List.not_mem_nil, or_false] at hx
          rcases hx with rfl | rfl <;> rfl
        rw [List.flatMap_cons, hnone, List.append_nil]
        simp [rowsOf, Request.rowsFor]
    · obtain ⟨begun, hp, hr⟩ := ih ((List.prefix_append_right_inj _).mp h)
      refine ⟨b :: begun, ?_, fun k => ?_⟩
      · rw [List.flatMap_cons]
        exact (List.prefix_append_right_inj _).mpr hp
      · rw [List.flatMap_append, rowsFor_batch, hr k]
        rfl

theorem script_of_front {d : Dataset} {drop : Bool} {batches : List Batch}
    {requests : List Request} (h : requests <+: script d drop batches) :
    ∃ begun, requests <+: script d drop begun ∧
      ∀ k, requests.flatMap (Request.rowsFor k) = rowsOf begun k := by
  rcases List.prefix_or_prefix_of_prefix h (List.prefix_append _ _) with ho | ⟨rest, rfl⟩
  · exact ⟨[], ho.trans (List.prefix_append _ _), fun k => rowsFor_opening k ho.subset⟩
  · obtain ⟨begun, hp, hr⟩ := begun_of_front ((List.prefix_append_right_inj _).mp h)
    refine ⟨begun, (List.prefix_append_right_inj _).mpr hp, fun k => ?_⟩
    rw [List.flatMap_append, rowsFor_opening k fun _ h => h, hr k, List.nil_append]

section

variable {s t u : σ} {requests : List Request} {calls : List Call}

theorem Answers.passes (h : Answers s (requests.map Request.smooth) t) (hc : Answers s calls u)
    (hp : calls.map Call.request <+: requests) : ∀ c ∈ calls, c.passes = true := by
  obtain ⟨rest, rfl⟩ := hp
  rw [List.map_append] at h
  obtain ⟨v, hv, -⟩ := h.of_append
  intro c hc'
  rw [(hc.unique hv (Request.map_request_smooth _).symm).1] at hc'
  obtain ⟨r, -, rfl⟩ := List.mem_map.mp hc'
  exact r.passes_smooth

/-- A host grants all that a load asks for as long as it is sent rows that its tables take. -/
theorem Host.calls_eq {d : Dataset} (H : Host σ d) {drop ok : Bool} (h : H.opening [] s)
    (hc : Answers s calls u) (hp : Protocol d drop calls ok)
    (ha : ∀ k : TableKind, k.Accepts (sentTo k calls)) :
    ∃ (batches : List Batch) (ending : Request), Acceptable batches ∧
      (ending = .commit ∨ ending = .rollback) ∧
      calls = (script d drop batches ++ [ending, .release]).map Request.smooth ∧
      H.closed batches u := by
  -- What is sent at the script's end is no row.
  have sent (body ends : List Call) (hcalls : calls = body ++ ends) (k : TableKind) :
      k.Accepts ((body.map Call.request).flatMap (Request.rowsFor k)) := by
    refine (ha k).front ?_
    rw [hcalls, sentTo_eq, List.map_append, List.flatMap_append]
    exact List.prefix_append _ _
  have finished (body : List Call) (ending release : Call)
      (hcalls : calls = body ++ [ending, release])
      (hbody : Scripted d drop body)
      (he : ending.request = .commit ∨ ending.request = .rollback)
      (hr : release.request = .release) : ∃ (batches : List Batch) (ending : Request),
        Acceptable batches ∧ (ending = .commit ∨ ending = .rollback) ∧
        calls = (script d drop batches ++ [ending, .release]).map Request.smooth ∧
        H.closed batches u := by
    obtain ⟨batches, -, hbody, -⟩ := hbody
    have hb : Acceptable batches := fun k => by
      have := sent body _ hcalls k
      rwa [hbody, rowsFor_script] at this
    obtain ⟨t, ht, hclosed⟩ := H.answers_load drop h hb he
    obtain ⟨hcs, rfl⟩ := hc.unique ht (by rw [Request.map_request_smooth, hcalls]; simp [hbody, hr])
    exact ⟨batches, _, hb, he, hcs, hclosed⟩
  have passed (body ends : List Call) (hcalls : calls = body ++ ends) {requests : List Request}
      (hr : body.map Call.request <+: requests) {t : σ}
      (ht : Answers s (requests.map Request.smooth) t) : ∀ c ∈ body, c.passes = true := by
    obtain ⟨v, hv, -⟩ := (hcalls ▸ hc).of_append
    exact ht.passes hv hr
  cases hp with
  | @completed body commit release scripted hcommit _ hr =>
    exact finished body commit release rfl scripted (Or.inl hcommit) hr
  | @uncommitted body commit rollback release scripted hcommit refused _ _ =>
    obtain ⟨batches, -, hbody, -⟩ := scripted
    have hb : Acceptable batches := fun k => by
      have := sent body _ rfl k
      rwa [hbody, rowsFor_script] at this
    obtain ⟨t, ht, -⟩ := H.answers_load drop h hb (Or.inl rfl)
    have := passed (body ++ [commit]) [rollback, release] (by simp) (by simp [hbody, hcommit]) ht
      commit (by simp)
    rw [refused] at this
    cases this
  | @aborted body rollback release ended hrb hr =>
    rcases ended with scripted | ⟨batches, requests, -, hpre, front, last, hfl, hlast, -, hreq⟩
    · exact finished body rollback release rfl scripted (Or.inr hrb) hr
    · obtain ⟨begun, hbegun, hrows⟩ := script_of_front hpre
      have hb : Acceptable begun := fun k => by
        have := sent body _ rfl k
        rwa [hreq, hrows k] at this
      obtain ⟨t, ht, -⟩ := H.answers_script drop h hb
      have := passed body _ rfl (hreq ▸ hbegun) ht last (by simp [hfl])
      rw [hlast] at this
      cases this

end

end MapTables
