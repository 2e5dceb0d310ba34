import MapTables.Load.Writer
import MapTables.Proofs.Fallible
import MapTables.Proofs.Store.Memory
import MapTables.Store.Supervised

/-!
# Stores that act on a memory

The memory itself is one, and so is a supervised memory, which may refuse any request. A
refusal leaves the memory as it is.
-/

namespace MapTables

variable {σ : Type} [Store σ]

/-- The store answers each request as its memory does or, if it may, refuses it. -/
def Drives (view : σ → Memory) (refusing : Prop) : Prop :=
  ∀ (r : Request) (s : σ),
    ((Store.ask r s).1 = (Memory.ask r (view s)).1 ∧
      view (Store.ask r s).2 = (Memory.ask r (view s)).2) ∨
    (refusing ∧ (∃ f, (Store.ask r s).1 = .error f) ∧ view (Store.ask r s).2 = view s)

theorem drives_memory : Drives (fun m : Memory => m) False := fun _ _ => Or.inl ⟨rfl, rfl⟩

theorem drives_supervised : Drives (Supervised.store : Supervised Memory → Memory) True := by
  intro r s
  obtain ⟨m, requests, fails⟩ := s
  change (_ ∧ Supervised.store (Supervised.ask r _).2 = _) ∨ _
  unfold Supervised.ask
  simp only
  split
  · next h =>
    refine Or.inr ⟨trivial, ?_, ?_⟩
    all_goals simp only [Store.ask, Supervised.ask, h, if_true]
    exact ⟨_, rfl⟩
  · next h =>
    refine Or.inl ⟨?_, rfl⟩
    simp only [Store.ask, Supervised.ask, h]
    rfl

namespace Drives

variable {view : σ → Memory} {refusing : Prop}

theorem moves (dr : Drives view refusing) {r : Request} {s t : σ} {a : Except StoreFault r.Answer}
    (ha : Store.ask r s = (a, t)) :
    (a = (Memory.ask r (view s)).1 ∧ view t = (Memory.ask r (view s)).2) ∨
      ((∃ f, a = .error f) ∧ view t = view s) := by
  have h := dr r s
  rw [ha] at h
  exact h.imp_right fun refused => refused.2

/-- A request that goes through has the memory's answer. One that does not leaves the memory,
and was refused by it or on purpose. -/
theorem reply (dr : Drives view refusing) (r : Request) (w : Writer) (m : Memory) :
    Triple (fun s : Writing σ => s.writer = w ∧ view s.store = m) (Writing.reply r)
      (fun a s => s.writer = w ∧
        match a with
        | .ok a => Memory.ask r m = (.ok a, view s.store)
        | .error _ => view s.store = m ∧ (refusing ∨ ∃ f, (Memory.ask r m).1 = .error f))
      (fun _ _ => False) := by
  rintro ⟨w', st, lines⟩ ⟨rfl, rfl⟩
  change Ending _ _ (Except.ok (Store.ask r st).1, Writing.mk w' (Store.ask r st).2 lines)
  refine ⟨rfl, ?_⟩
  rcases dr r st with ⟨ha, hv⟩ | ⟨hr, ⟨f, hf⟩, hv⟩
  · cases hs : (Store.ask r st).1 with
    | ok a => exact Prod.ext (by rw [← ha, hs]) hv.symm
    | error f =>
      rw [hs] at ha
      exact ⟨hv.trans (Memory.ask_error ha.symm), Or.inr ⟨f, ha.symm⟩⟩
  · rw [hf]
    exact ⟨hv, Or.inl hr⟩

theorem ask (dr : Drives view refusing) (r : Request) (fault : StoreFault → LoadFault)
    (w : Writer) (m : Memory) :
    Triple (fun s : Writing σ => s.writer = w ∧ view s.store = m) (Writing.ask r fault)
      (fun a s => s.writer = w ∧ Memory.ask r m = (.ok a, view s.store))
      (fun _ s => s.writer = w ∧ view s.store = m ∧
        (refusing ∨ ∃ f, (Memory.ask r m).1 = .error f)) := by
  refine Triple.bind ((dr.reply r w m).weaken (fun _ h => h) (fun _ _ h => h) ?_) ?_
  · exact fun _ _ h => h.elim
  · rintro (f | a)
    · exact Triple.throw fun _ h => h
    · exact Triple.pure fun _ h => h

end Drives
end MapTables
