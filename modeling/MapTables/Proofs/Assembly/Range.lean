import MapTables.Proofs.Assembly.Owners
import MapTables.Proofs.Table.Numbers

/-!
# The range of numbers

The numbers of members and of the nodes of a way begin anew with each feature. They stay within
32 bits where no opening of a feature is followed by too many of them.
-/

namespace MapTables

namespace Assembler

variable {a : Assembler} {e : Event} {s : Step}

/-- The numbering has begun anew when no relation is open. -/
def Fresh (a : Assembler) : Prop := a.state ≠ some .relation → a.nextSequence = firstSequence

theorem fresh_initial : ({} : Assembler).Fresh := fun _ => rfl

theorem Fresh.openWith (h : a.Fresh) (f : Feature) :
    (a.openWith f).next.nextSequence = firstSequence := by
  unfold Assembler.openWith
  split
  · next hn =>
    apply h
    rw [state, hn]
    exact (Option.some_ne_none _).symm
  · rfl

theorem Fresh.close (h : a.Fresh) {f : Feature} (isOpen : a.openFeature = some f) :
    a.sequenceAfter f.kind = firstSequence := by
  unfold sequenceAfter
  split
  · rfl
  · next hk =>
    apply h
    rw [state, isOpen]
    exact fun he => hk (Option.some.inj he)

theorem state_eq (a : Assembler) : a.state = a.context.map Prod.fst := by
  rw [context, Option.map_map]
  rfl

theorem state_of_context {b : Assembler} (h : b.context = a.context) : b.state = a.state := by
  rw [state_eq, state_eq, h]

theorem context_of_joins {f : Feature} (isOpen : a.openFeature = some f)
    (isRelation : f.body = .relation) : a.context = some (.relation, f.id) := by
  simp [context, isOpen, Feature.kind, isRelation, Body.kind]

theorem state_of_joins {f : Feature} (isOpen : a.openFeature = some f)
    (isRelation : f.body = .relation) : a.state = some .relation := by
  rw [state_eq, context_of_joins isOpen isRelation]
  rfl

theorem Fresh.take (h : a.Fresh) (hs : a.Takes e s) : s.next.Fresh := by
  have hc := hs.context_eq
  intro hn
  cases hs with
  | opens => exact h.openWith _
  | tags | repeats | refers => exact h fun hr => hn ((state_of_context (hc rfl)).trans hr)
  | ignores => exact h hn
  | joins isOpen isRelation => exact absurd (state_of_joins isOpen isRelation) hn
  | closes isOpen kind => exact kind ▸ h.close isOpen

end Assembler

/-! ## Events to be numbered -/

namespace Event

def isNumbered : Event → Bool
  | .start .nodeRef _ | .start .member _ => true
  | _ => false

/-- How many nodes and members came since a feature was opened, with one more event. -/
def tallied (n : Nat) (e : Event) : Nat :=
  if e.opensFeature then 0 else if e.isNumbered then n + 1 else n

end Event

/-- At no time more nodes and members have come since a feature was opened than can be numbered. So
many came before these events. -/
def inRange (n : Nat) : List Event → Bool
  | [] => n ≤ mostNumbered
  | e :: es => n ≤ mostNumbered && inRange (e.tallied n) es

theorem le_of_inRange {n : Nat} {es : List Event} (h : inRange n es = true) : n ≤ mostNumbered := by
  cases es with
  | nil => exact of_decide_eq_true h
  | cons => exact of_decide_eq_true (Bool.and_eq_true_iff.mp h).1

theorem inRange_of_append {n : Nat} {es fs : List Event} (h : inRange n (es ++ fs) = true) :
    inRange n es = true := by
  induction es generalizing n with
  | nil => exact decide_eq_true (le_of_inRange h)
  | cons e es ih =>
    obtain ⟨hn, h⟩ := Bool.and_eq_true_iff.mp h
    exact Bool.and_eq_true_iff.mpr ⟨hn, ih h⟩

namespace Assembler

variable {a : Assembler} {e : Event} {s : Step} {n : Nat}

/-- The numbers are up to so many. -/
structure Within (n : Nat) (a : Assembler) : Prop where
  fresh : a.Fresh
  next : a.nextSequence.toInt ≤ n + 1
  refs : ∀ f, a.openFeature = some f → f.refs.size ≤ n

theorem within_initial : ({} : Assembler).Within 0 :=
  ⟨fresh_initial, Int.le_refl 1, fun _ h => nomatch h⟩

theorem first_le (n : Nat) : firstSequence.toInt ≤ n + 1 := by
  have : firstSequence.toInt = 1 := rfl
  omega

theorem Within.take (h : a.Within n) (hs : a.Takes e s) (hn : e.tallied n ≤ mostNumbered) :
    s.next.Within (e.tallied n) := by
  refine ⟨h.fresh.take hs, ?_, ?_⟩
  · cases hs with
    | opens => exact h.fresh.openWith _ ▸ first_le _
    | tags | repeats | ignores => exact h.next
    | refers => exact Int.le_trans h.next (by change (n : Int) + 1 ≤ (n + 1 : Nat) + 1; omega)
    | joins =>
      change n + 1 ≤ mostNumbered at hn
      change (a.nextSequence + 1).toInt ≤ (n + 1 : Nat) + 1
      rw [toInt_succ h.next (Nat.le_succ_of_le hn)]
      exact Int.add_le_add_right h.next 1
    | closes isOpen kind => exact kind ▸ h.fresh.close isOpen ▸ first_le _
  · intro g hg
    cases hs with
    | opens read =>
      rw [openWith_isOpen] at hg
      cases hg
      rw [Reading.refs_of_feature read]
      exact Nat.zero_le _
    | @tags _ _ _ f _ _ _ isOpen =>
      cases hg
      exact h.refs f isOpen
    | repeats | ignores => exact h.refs g hg
    | @refers _ f refs _ isOpen isWay =>
      have hrefs : f.refs = refs := by rw [Feature.refs, isWay]
      cases hg
      change (refs.push _).size ≤ n + 1
      rw [Array.size_push, ← hrefs]
      exact Nat.succ_le_succ (h.refs f isOpen)
    | joins => exact Nat.le_succ_of_le (h.refs g hg)
    | closes => cases hg

end Assembler
end MapTables
