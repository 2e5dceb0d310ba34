import MapTables.Assembly.Basic
import Mathlib.Data.List.Basic

/-!
# Looking up attributes

The assembler looks for a few names only, and takes the first attribute of a name. So the order of
attributes tells where two of them have such a name in common.
-/

namespace MapTables

namespace Attributes

variable {a a' : Attributes} {name v : String}

def lookedUp : List String :=
  ["id", "lat", "lon", "user", "uid", "visible", "version", "changeset", "timestamp", "k", "v",
    "ref", "type", "role"]

def Matches (a a' : Attributes) : Prop := ∀ name ∈ lookedUp, a'.get? name = a.get? name

theorem mem_of_get? (h : a.get? name = some v) : (name, v) ∈ a := by
  obtain ⟨⟨n, w⟩, hfind, rfl⟩ := Option.map_eq_some_iff.mp h
  have hn : n = name := by simpa using List.find?_some hfind
  subst hn
  exact List.mem_of_find?_eq_some hfind

theorem get?_eq_none_iff : a.get? name = none ↔ ∀ v, (name, v) ∉ a := by
  rw [get?, Option.map_eq_none_iff, List.find?_eq_none]
  constructor
  · intro h v hv
    simpa using h (name, v) hv
  · rintro h ⟨n, v⟩ hv hn
    obtain rfl : n = name := by simpa using hn
    exact h v hv

theorem get?_cons_self (name v : String) (a : Attributes) :
    get? ((name, v) :: a) name = some v := by
  simp [get?]

theorem get?_perm_iff : (∀ a' : Attributes, a'.Perm a → a'.get? name = a.get? name) ↔
    ∀ v v', (name, v) ∈ a → (name, v') ∈ a → v = v' := by
  constructor
  · intro h v v' hv hv'
    -- Either of the two may be the first one.
    have first (u : String) (hu : (name, u) ∈ a) : a.get? name = some u := by
      rw [← h _ (List.perm_cons_erase hu).symm, get?_cons_self]
    exact Option.some.inj ((first v hv).symm.trans (first v' hv'))
  · intro h a' hperm
    cases ha : a.get? name with
    | none =>
      rw [get?_eq_none_iff] at ha ⊢
      intro v hv
      exact ha v (hperm.mem_iff.mp hv)
    | some v =>
      cases ha' : a'.get? name with
      | none => exact absurd (hperm.mem_iff.mpr (mem_of_get? ha)) (get?_eq_none_iff.mp ha' v)
      | some v' => rw [h v' v (hperm.mem_iff.mp (mem_of_get? ha')) (mem_of_get? ha)]

theorem Matches.refl (a : Attributes) : a.Matches a := fun _ _ => rfl

/-- Attributes of one name that is looked for have one value. -/
def Settled (a : Attributes) : Prop :=
  ∀ p ∈ a, ∀ q ∈ a, p.1 ∈ lookedUp → q.1 = p.1 → q.2 = p.2

instance (a : Attributes) : Decidable a.Settled := List.decidableBAll _ a

theorem Settled.matches (h : a.Settled) (hp : a'.Perm a) : a.Matches a' := by
  intro name hn
  refine get?_perm_iff.mpr (fun v v' hv hv' => ?_) a' hp
  exact h (name, v') hv' (name, v) hv hn rfl

end Attributes

/-! ## What is read of attributes -/

namespace Reading

variable {α : Type} {a a' : Attributes} {name : String} (h : a.Matches a') (e : Element)
  (c : Context)
include h

theorem required_matches (hn : name ∈ Attributes.lookedUp) :
    required e a' name c = required e a name c := by
  unfold required
  rw [h name hn]

theorem requiredValue_matches (hn : name ∈ Attributes.lookedUp) (read : String → Option α) :
    requiredValue read e a' name c = requiredValue read e a name c := by
  unfold requiredValue
  rw [required_matches h e c hn]

theorem optionalValue_matches (hn : name ∈ Attributes.lookedUp) (read : String → Option α) :
    optionalValue read e a' name c = optionalValue read e a name c := by
  unfold optionalValue
  rw [h name hn]

theorem edit_matches : edit e a' c = edit e a c := by
  unfold edit
  simp only [optionalValue_matches h e c (show "uid" ∈ Attributes.lookedUp by decide),
    optionalValue_matches h e c (show "visible" ∈ Attributes.lookedUp by decide),
    optionalValue_matches h e c (show "version" ∈ Attributes.lookedUp by decide),
    optionalValue_matches h e c (show "changeset" ∈ Attributes.lookedUp by decide),
    optionalValue_matches h e c (show "timestamp" ∈ Attributes.lookedUp by decide),
    h "user" (by decide)]

theorem position_matches (id : Int) : position id a' = position id a := by
  unfold position
  simp only [requiredValue_matches h _ _ (show "lat" ∈ Attributes.lookedUp by decide),
    requiredValue_matches h _ _ (show "lon" ∈ Attributes.lookedUp by decide)]

theorem body_matches (kind : FeatureKind) (id : Int) : body kind id a' = body kind id a := by
  cases kind with
  | node => simp only [body, position_matches h]
  | _ => rfl

theorem feature_matches (kind : FeatureKind) : feature kind a' = feature kind a := by
  unfold feature
  simp only [requiredValue_matches h _ _ (show "id" ∈ Attributes.lookedUp by decide),
    edit_matches h, body_matches h]

theorem member_matches (relation : Int) (sequence : Int32) :
    member relation sequence a' = member relation sequence a := by
  unfold member
  simp only [required_matches h _ _ (show "type" ∈ Attributes.lookedUp by decide),
    requiredValue_matches h _ _ (show "ref" ∈ Attributes.lookedUp by decide),
    h "role" (by decide)]

end Reading

theorem Assembler.start_matches {a a' : Attributes} (h : a.Matches a') (s : Assembler)
    (e : Element) : s.start e a' = s.start e a := by
  cases e with
  | node | way | relation => simp only [start, Reading.feature_matches h]
  | tag =>
    simp only [start, addTag,
      Reading.required_matches h _ _ (show "k" ∈ Attributes.lookedUp by decide),
      Reading.required_matches h _ _ (show "v" ∈ Attributes.lookedUp by decide)]
  | nodeRef =>
    simp only [start, addNodeRef,
      Reading.requiredValue_matches h _ _ (show "ref" ∈ Attributes.lookedUp by decide)]
  | member => simp only [start, addMember, Reading.member_matches h]

end MapTables
