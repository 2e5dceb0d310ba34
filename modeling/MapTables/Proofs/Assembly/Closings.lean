import MapTables.Proofs.Assembly.Step

/-!
# Rows up to a closing

A sequence of events is cut where features are closed. No row is made between the last
closing and an end at which no feature is open.
-/

namespace MapTables.Assembler

/-- The rows of a sequence of events up to its m-th closing of a feature. -/
def rowsToClosing (a : Assembler) : Nat → List Event → List Placed
  | 0, _ => []
  | _, [] => []
  | m + 1, e :: es =>
    match a.step e with
    | .error _ => []
    | .ok s => s.rows ++ s.next.rowsToClosing (if s.change.closes then m else m + 1) es

variable {a b c : Assembler} {e : Event} {es fs : List Event} {R S : List Placed} {m : Nat}

@[simp] theorem rowsToClosing_zero (es : List Event) : a.rowsToClosing 0 es = [] := by
  cases es <;> rfl

/-! ## Runs -/

theorem run_cons_eq_ok : a.run (e :: es) = .ok (b, R) ↔
    ∃ s S, a.step e = .ok s ∧ s.next.run es = .ok (b, S) ∧ R = s.rows ++ S := by
  rw [run, bind_eq_ok]
  constructor
  · rintro ⟨s, hs, h⟩
    obtain ⟨⟨b', S⟩, hr, h⟩ := bind_eq_ok.mp h
    cases h
    exact ⟨s, S, hs, hr, rfl⟩
  · rintro ⟨s, S, hs, hr, rfl⟩
    exact ⟨s, hs, by rw [hr]; rfl⟩

theorem run_append_eq_ok : a.run (es ++ fs) = .ok (b, R) ↔
    ∃ c S T, a.run es = .ok (c, S) ∧ c.run fs = .ok (b, T) ∧ R = S ++ T := by
  induction es generalizing a R with
  | nil =>
    constructor
    · intro h
      exact ⟨a, [], R, rfl, h, rfl⟩
    · rintro ⟨c, S, T, hs, ht, rfl⟩
      cases hs
      exact ht
  | cons e es ih =>
    rw [List.cons_append, run_cons_eq_ok]
    constructor
    · rintro ⟨s, U, hs, hu, rfl⟩
      obtain ⟨c, S, T, hS, hT, rfl⟩ := ih.mp hu
      exact ⟨c, s.rows ++ S, T, run_cons_eq_ok.mpr ⟨s, S, hs, hS, rfl⟩, hT,
        (List.append_assoc _ _ _).symm⟩
    · rintro ⟨c, S, T, hS, hT, rfl⟩
      obtain ⟨s, U, hs, hu, rfl⟩ := run_cons_eq_ok.mp hS
      exact ⟨s, U ++ T, hs, ih.mpr ⟨c, U, T, hu, hT, rfl⟩, List.append_assoc _ _ _⟩

theorem features_le_of_run (h : a.run es = .ok (b, R)) : a.counts.features ≤ b.counts.features := by
  induction es generalizing a R with
  | nil => cases h; exact Nat.le_refl _
  | cons e es ih =>
    obtain ⟨s, T, hs, hr, rfl⟩ := run_cons_eq_ok.mp h
    have := ih hr
    have := (takes_of_step hs).features_eq
    omega

/-! ## Closings -/

theorem rowsToClosing_append (h : a.run es = .ok (b, R))
    (hm : a.counts.features + m ≤ b.counts.features) (fs : List Event) :
    a.rowsToClosing m (es ++ fs) = a.rowsToClosing m es := by
  induction es generalizing a R m with
  | nil =>
    cases h
    have : m = 0 := by omega
    subst this
    simp
  | cons e es ih =>
    cases m with
    | zero => simp
    | succ m =>
      obtain ⟨s, T, hs, hr, rfl⟩ := run_cons_eq_ok.mp h
      have hf := (takes_of_step hs).features_eq
      simp only [List.cons_append, rowsToClosing, hs]
      rw [ih hr]
      cases hc : s.change.closes with
      | true =>
        rw [hc, if_pos rfl] at hf
        rw [if_pos rfl]
        omega
      | false =>
        rw [hc, if_neg Bool.false_ne_true] at hf
        rw [if_neg Bool.false_ne_true]
        omega

theorem quiet_of_run (h : a.run es = .ok (b, R)) (hf : b.counts.features = a.counts.features)
    (hb : b.openFeature = none) : a.openFeature = none ∧ R = [] := by
  induction es generalizing a R with
  | nil => cases h; exact ⟨hb, rfl⟩
  | cons e es ih =>
    obtain ⟨s, T, hs, hr, rfl⟩ := run_cons_eq_ok.mp h
    have ht := takes_of_step hs
    have hle := features_le_of_run hr
    have heq := ht.features_eq
    cases hc : s.change.closes with
    | true => rw [hc, if_pos rfl] at heq; omega
    | false =>
      rw [hc, if_neg Bool.false_ne_true] at heq
      obtain ⟨hn, rfl⟩ := ih hr (by omega)
      obtain ⟨ha, hrows⟩ := ht.quiet hc hn
      exact ⟨ha, by rw [hrows]; rfl⟩

/-- Where no feature is open in the end, all rows come up to the last closing. -/
theorem rowsToClosing_of_run (h : a.run es = .ok (b, R)) (hb : b.openFeature = none) :
    a.rowsToClosing (b.counts.features - a.counts.features) es = R := by
  induction es generalizing a R with
  | nil => cases h; simp
  | cons e es ih =>
    cases hm : b.counts.features - a.counts.features with
    | zero =>
      have := features_le_of_run h
      rw [(quiet_of_run h (by omega) hb).2, rowsToClosing_zero]
    | succ m =>
      obtain ⟨s, T, hs, hr, rfl⟩ := run_cons_eq_ok.mp h
      have hf := (takes_of_step hs).features_eq
      simp only [rowsToClosing, hs]
      rw [← ih hr]
      congr 2
      cases hc : s.change.closes with
      | true =>
        rw [hc, if_pos rfl] at hf
        rw [if_pos rfl]
        omega
      | false =>
        rw [hc, if_neg Bool.false_ne_true] at hf
        rw [if_neg Bool.false_ne_true]
        omega

end MapTables.Assembler
