/-!
# Computations that may fail

Two tools for them: an `Except` that ended well is taken apart step by step, and a triple
says what holds before a computation on a state, after it, and after a fault of it. A
fault keeps the state that was reached.
-/

namespace MapTables

variable {ε σ α β : Type}

/-! ## Values or faults -/

theorem bind_eq_ok {x : Except ε α} {f : α → Except ε β} {b : β} :
    (x >>= f) = .ok b ↔ ∃ a, x = .ok a ∧ f a = .ok b := by
  cases x <;> simp [bind, Except.bind]

theorem map_eq_ok {x : Except ε α} {f : α → β} {b : β} :
    x.map f = .ok b ↔ ∃ a, x = .ok a ∧ f a = b := by
  cases x <;> simp [Except.map]

theorem exists_error_iff {x : Except ε α} : (∃ e, x = .error e) ↔ ¬ ∃ a, x = .ok a := by
  cases x <;> simp

theorem exists_ok_of_isSome {x : Except ε α} (h : x.toOption.isSome = true) : ∃ a, x = .ok a := by
  cases x with
  | error e => cases h
  | ok a => exact ⟨a, rfl⟩

theorem exists_error_of_isNone {x : Except ε α} (h : x.toOption.isNone = true) :
    ∃ e, x = .error e := by
  cases x with
  | error e => exact ⟨e, rfl⟩
  | ok a => cases h

theorem ok_of_toOption {x : Except ε α} {a : α} (h : x.toOption = some a) : x = .ok a := by
  cases x with
  | error e => cases h
  | ok b => rw [Option.some.inj h]

theorem toOption_map (f : α → β) (x : Except ε α) : (x.map f).toOption = x.toOption.map f := by
  cases x <;> rfl

theorem toOption_mapError {ε' : Type} (f : ε → ε') (x : Except ε α) :
    (x.mapError f).toOption = x.toOption := by
  cases x <;> rfl

theorem ok_of_rel {ε' : Type} {R : α → β → Prop} {a : α} {y : Except ε' β}
    (h : Option.Rel R (Except.ok a : Except ε α).toOption y.toOption) : ∃ b, y = .ok b ∧ R a b := by
  cases y with
  | error e => cases h
  | ok b =>
    cases h with
    | some h => exact ⟨b, rfl, h⟩

theorem error_of_rel {ε' : Type} {R : α → β → Prop} {e : ε} {y : Except ε' β}
    (h : Option.Rel R (Except.error e : Except ε α).toOption y.toOption) : ∃ e', y = .error e' := by
  cases y with
  | error e' => exact ⟨e', rfl⟩
  | ok b => cases h

/-! ## Triples -/

theorem bind_run (x : ExceptT ε (StateM σ) α) (f : α → ExceptT ε (StateM σ) β) (s : σ) :
    (x >>= f) s = match (x s : Except ε α × σ) with
      | (.ok a, t) => f a t
      | (.error e, t) => (.error e, t) := by
  rcases hxs : (x s : Except ε α × σ) with ⟨e | a, t⟩
  · simp [Bind.bind, ExceptT.bind, ExceptT.mk, ExceptT.bindCont, StateT.bind, hxs]
    rfl
  · simp [Bind.bind, ExceptT.bind, ExceptT.mk, ExceptT.bindCont, StateT.bind, hxs]

/-- The end of a computation, with `Q` of its result or `E` of its fault. -/
def Ending (Q : α → σ → Prop) (E : ε → σ → Prop) : Except ε α × σ → Prop
  | (.ok a, t) => Q a t
  | (.error e, t) => E e t

theorem Ending.imp {Q Q' : α → σ → Prop} {E E' : ε → σ → Prop} {r : Except ε α × σ}
    (h : Ending Q E r) (hQ : ∀ a s, Q a s → Q' a s) (hE : ∀ e s, E e s → E' e s) :
    Ending Q' E' r := by
  obtain ⟨e | a, t⟩ := r
  · exact hE e t h
  · exact hQ a t h

theorem Ending.and {Q Q' : α → σ → Prop} {E E' : ε → σ → Prop} {r : Except ε α × σ}
    (h : Ending Q E r) (h' : Ending Q' E' r) :
    Ending (fun a s => Q a s ∧ Q' a s) (fun e s => E e s ∧ E' e s) r := by
  obtain ⟨e | a, t⟩ := r <;> exact ⟨h, h'⟩

theorem Ending.result {P : Except ε α → σ → Prop} {r : Except ε α × σ}
    (h : Ending (fun a => P (.ok a)) (fun e => P (.error e)) r) : P r.1 r.2 := by
  obtain ⟨_ | _, _⟩ := r <;> exact h

/-- From a state with `P` the computation ends with `Q`, or with `E` of its fault. -/
def Triple (P : σ → Prop) (x : ExceptT ε (StateM σ) α) (Q : α → σ → Prop)
    (E : ε → σ → Prop) : Prop :=
  ∀ s, P s → Ending Q E (x s)

namespace Triple

variable {P P' : σ → Prop} {Q Q' : α → σ → Prop} {R : β → σ → Prop} {E E' : ε → σ → Prop}

theorem pure {a : α} (h : ∀ s, P s → Q a s) : Triple P (pure a) Q E := h

theorem throw {e : ε} (h : ∀ s, P s → E e s) : Triple (α := α) P (throw e) Q E := h

theorem modify {f : σ → σ} {Q : PUnit → σ → Prop} (h : ∀ s, P s → Q ⟨⟩ (f s)) :
    Triple P (modify f) Q E := h

theorem modifyGet {f : σ → α × σ} (h : ∀ s, P s → Q (f s).1 (f s).2) :
    Triple P (modifyGet f) Q E := h

theorem bind {x : ExceptT ε (StateM σ) α} {f : α → ExceptT ε (StateM σ) β}
    (hx : Triple P x Q E) (hf : ∀ a, Triple (Q a) (f a) R E) : Triple P (x >>= f) R E := by
  intro s hs
  have h := hx s hs
  rw [bind_run]
  rcases hxs : (x s : Except ε α × σ) with ⟨e | a, t⟩
  · rw [hxs] at h; exact h
  · rw [hxs] at h; exact hf a t h

theorem get_bind {f : σ → ExceptT ε (StateM σ) β} (h : ∀ a, P a → Triple (· = a) (f a) R E) :
    Triple P (get >>= f) R E :=
  fun s hs => h s hs s rfl

theorem weaken {x : ExceptT ε (StateM σ) α} (h : Triple P x Q E) (hP : ∀ s, P' s → P s)
    (hQ : ∀ a s, Q a s → Q' a s) (hE : ∀ e s, E e s → E' e s) : Triple P' x Q' E' :=
  fun s hs => (h s (hP s hs)).imp hQ hE

theorem of_state {x : ExceptT ε (StateM σ) α} (h : ∀ s, P s → Triple (· = s) x Q E) :
    Triple P x Q E :=
  fun s hs => h s hs s rfl

end Triple

/-- A loop keeps what each round carries on from the elements before it. -/
theorem Triple.forM {I : List α → σ → Prop} {E : ε → σ → Prop}
    {f : α → ExceptT ε (StateM σ) PUnit} (l : List α)
    (h : ∀ before a after, l = before ++ a :: after →
      Triple (I before) (f a) (fun _ => I (before ++ [a])) E) :
    Triple (I []) (l.forM f) (fun _ => I l) E := by
  suffices ∀ before after, l = before ++ after →
      Triple (I before) (after.forM f) (fun _ => I l) E from this [] l rfl
  intro before after
  induction after generalizing before with
  | nil =>
    intro hl
    rw [List.append_nil] at hl
    subst hl
    exact Triple.pure fun _ h => h
  | cons a after ih =>
    intro hl
    exact Triple.bind (h before a after hl) fun _ => ih (before ++ [a]) (by simpa using hl)

end MapTables
