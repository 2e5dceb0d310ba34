import MapTables.Load.Run
import MapTables.Proofs.Fallible

/-!
# Calls of a store

Any store can be watched: each request is written down with what it was answered.
-/

namespace MapTables

structure Call where
  request : Request
  answer : Except StoreFault request.Answer

namespace Call

def granted (c : Call) : Bool :=
  match c.answer with
  | .ok _ => true
  | .error _ => false

/-- The call gives no reason to stop: it was granted, and a table that was looked for is not
there. -/
def passes : Call → Bool
  | ⟨.tableExists _, .ok found⟩ => !found
  | c => c.granted

end Call

structure Logged (σ : Type) where
  store : σ
  calls : List Call := []

namespace Logged

variable {σ : Type} [Store σ]

def ask (r : Request) (s : Logged σ) : Reply (Logged σ) r.Answer :=
  let (answer, store) := Store.ask r s.store
  (answer, { store, calls := s.calls ++ [⟨r, answer⟩] })

instance : Store (Logged σ) := ⟨ask⟩

theorem reply_spec (r : Request) (s : Writing (Logged σ)) :
    Triple (· = s) (Writing.reply r)
      (fun a t => t.writer = s.writer ∧ t.store.calls = s.store.calls ++ [⟨r, a⟩])
      (fun _ _ => False) := by
  rintro _ rfl
  exact ⟨rfl, rfl⟩

theorem ask_spec (r : Request) (fault : StoreFault → LoadFault) (s : Writing (Logged σ)) :
    Triple (· = s) (Writing.ask r fault)
      (fun a t => t.writer = s.writer ∧ t.store.calls = s.store.calls ++ [⟨r, .ok a⟩])
      (fun e t => ∃ f, e = fault f ∧ t.writer = s.writer ∧
        t.store.calls = s.store.calls ++ [⟨r, .error f⟩]) := by
  refine Triple.bind ((reply_spec r s).weaken (fun _ h => h) (fun _ _ h => h) ?_) fun a => ?_
  · exact fun _ _ h => h.elim
  cases a with
  | ok a => exact Triple.pure fun _ h => h
  | error f => exact Triple.throw fun t h => ⟨f, rfl, h⟩

end Logged

/-! ## Passed and failed requests -/

/-- The calls were these requests, and none of them gave a reason to stop. -/
def Passed (requests : List Request) (calls : List Call) : Prop :=
  calls.map Call.request = requests ∧ ∀ c ∈ calls, c.passes = true

/-- The calls were these requests, and only the last one gave a reason to stop. -/
def Failed (requests : List Request) (calls : List Call) : Prop :=
  ∃ before last, calls = before ++ [last] ∧ last.passes = false ∧
    (∀ c ∈ before, c.passes = true) ∧ calls.map Call.request = requests

theorem Passed.concat {requests : List Request} {calls : List Call} {c : Call}
    (h : Passed requests calls) (hc : c.passes = true) :
    Passed (requests ++ [c.request]) (calls ++ [c]) := by
  refine ⟨by rw [List.map_append, h.1]; rfl, fun x hx => ?_⟩
  rw [List.mem_append, List.mem_singleton] at hx
  rcases hx with hx | rfl
  · exact h.2 x hx
  · exact hc

theorem Passed.fail {requests : List Request} {calls : List Call} {c : Call}
    (h : Passed requests calls) (hc : c.passes = false) :
    Failed (requests ++ [c.request]) (calls ++ [c]) :=
  ⟨calls, c, rfl, hc, h.2, by rw [List.map_append, h.1]; rfl⟩

/-! ## Transactions -/

def Request.opens (isOpen : Bool) (r : Request) : Bool :=
  match r with
  | .beginTransaction => true
  | .commit | .rollback => false
  | _ => isOpen

/-- Whether the calls leave a transaction open that one of them began. -/
def inTransaction (calls : List Call) : Bool :=
  calls.foldl (fun isOpen c => if c.granted then c.request.opens isOpen else isOpen) false

theorem granted_of_passes {c : Call} (h : c.passes = true) : c.granted = true := by
  obtain ⟨r, a⟩ := c
  cases a with
  | ok _ => rfl
  | error _ => cases r <;> exact h

theorem inTransaction_concat (calls : List Call) (c : Call) :
    inTransaction (calls ++ [c]) =
      if c.granted then c.request.opens (inTransaction calls) else inTransaction calls := by
  unfold inTransaction
  rw [List.foldl_append]
  rfl

theorem Passed.inTransaction_eq {requests : List Request} {calls : List Call}
    (h : Passed requests calls) : inTransaction calls = requests.foldl Request.opens false := by
  obtain ⟨rfl, hp⟩ := h
  unfold inTransaction
  rw [List.foldl_map]
  generalize false = isOpen
  induction calls generalizing isOpen with
  | nil => rfl
  | cons c calls ih =>
    rw [List.foldl_cons, List.foldl_cons, granted_of_passes (hp c List.mem_cons_self), if_pos rfl]
    exact ih (fun x hx => hp x (List.mem_cons_of_mem c hx)) _

end MapTables
