import MapTables.Proofs.Store.Logged

/-!
# Stores that answer alike

A store answers calls if, asked for the requests one after the other, it gives the answers
that were written down. What was written down of a store is what the store answers.
-/

namespace MapTables

variable {σ : Type} [Store σ]

/-- The store gives these answers one after the other, and this is the store after them. -/
inductive Answers : σ → List Call → σ → Prop
  | nil {s : σ} : Answers s [] s
  | cons {s t u : σ} {c : Call} {calls : List Call} (answer : Store.ask c.request s = (c.answer, t))
      (rest : Answers t calls u) : Answers s (c :: calls) u

namespace Answers

variable {s t u : σ} {c : Call} {calls more : List Call}

theorem append (h : Answers s calls t) (h' : Answers t more u) : Answers s (calls ++ more) u := by
  induction h with
  | nil => exact h'
  | cons answer _ ih => exact .cons answer (ih h')

theorem of_append (h : Answers s (calls ++ more) u) :
    ∃ t, Answers s calls t ∧ Answers t more u := by
  induction calls generalizing s with
  | nil => exact ⟨s, .nil, h⟩
  | cons c calls ih =>
    cases h with
    | cons answer rest =>
      obtain ⟨t, hc, hm⟩ := ih rest
      exact ⟨t, .cons answer hc, hm⟩

theorem unique (h : Answers s calls t) (h' : Answers s more u)
    (hr : calls.map Call.request = more.map Call.request) : calls = more ∧ t = u := by
  induction h generalizing more with
  | nil =>
    cases h' with
    | nil => exact ⟨rfl, rfl⟩
    | cons _ _ => cases hr
  | @cons s _ _ c _ answer _ ih =>
    cases h' with
    | nil => cases hr
    | @cons _ _ _ c' more answer' rest' =>
      obtain ⟨r, a⟩ := c
      obtain ⟨r', a'⟩ := c'
      obtain ⟨hc, hrest⟩ := List.cons.inj hr
      simp only at hc
      subst hc
      obtain ⟨rfl, rfl⟩ := Prod.mk.inj (answer.symm.trans answer')
      obtain ⟨rfl, rfl⟩ := ih rest' hrest
      exact ⟨rfl, rfl⟩

theorem logged (h : Answers s calls t) (earlier : List Call) :
    Answers (Logged.mk s earlier) calls (Logged.mk t (earlier ++ calls)) := by
  induction h generalizing earlier with
  | nil =>
    rw [List.append_nil]
    exact .nil
  | @cons s t _ c calls answer _ ih =>
    refine .cons (t := ⟨t, earlier ++ [c]⟩) ?_ (by simpa using ih (earlier ++ [c]))
    change Logged.ask c.request ⟨s, earlier⟩ = _
    rw [Logged.ask, answer]

end Answers

/-! ## What a log tells -/

/-- What was written down between two states of a store is what the store answered. -/
def Logged.Moves (s t : Logged σ) : Prop :=
  ∃ new, t.calls = s.calls ++ new ∧ Answers s.store new t.store

namespace Logged.Moves

variable {s t u : Logged σ}

theorem refl (s : Logged σ) : s.Moves s := ⟨[], (List.append_nil _).symm, .nil⟩

theorem trans (h : s.Moves t) (h' : t.Moves u) : s.Moves u := by
  obtain ⟨new, hc, ha⟩ := h
  obtain ⟨new', hc', ha'⟩ := h'
  exact ⟨new ++ new', by rw [hc', hc, List.append_assoc], ha.append ha'⟩

theorem ask (r : Request) (s : Logged σ) : s.Moves (Store.ask r s).2 :=
  ⟨[⟨r, (Store.ask r s.store).1⟩], rfl, .cons rfl .nil⟩

end Logged.Moves
end MapTables
