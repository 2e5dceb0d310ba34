import MapTables.Proofs.Assembly.Outline
import MapTables.Proofs.Assembly.Step

/-!
# What attributes told

A feature or a member that was read is what its attributes tell: they have an id, and a member's
kind, reference and role. A feature begins without tags and without nodes.
-/

namespace MapTables

variable {α : Type}

namespace Attributes

/-- The value that the attribute of a name tells, read without the blanks around it. -/
def told? (a : Attributes) (name : String) (read : String → Option α) : Option α :=
  (a.get? name).bind fun text => read (Text.trim text)

def member? (a : Attributes) : Option Member := do
  let kind ← (a.get? "type").bind FeatureKind.ofWord?
  let ref ← a.told? "ref" Reading.id?
  return ⟨kind, ref, a.get? "role"⟩

end Attributes

namespace Reading

variable {a : Attributes} {k : FeatureKind} {f : Feature}

theorem told_of_requiredValue {read : String → Option α} {e : Element} {name : String}
    {c : Context} {v : α} (h : requiredValue read e a name c = .ok v) :
    a.told? name read = some v := by
  unfold requiredValue at h
  obtain ⟨text, ht, h⟩ := bind_eq_ok.mp h
  unfold value at h
  split at h
  · next hv =>
    cases h
    rw [Attributes.told?, Assembler.required_eq_ok ht]
    exact hv
  · cases h

theorem feature_eq_ok (h : feature k a = .ok f) :
    ∃ id edit body, Reading.body k id a = .ok body ∧ a.told? "id" id? = some id ∧
      f = { id, edit, tags := .empty, body } := by
  unfold feature at h
  obtain ⟨id, hid, h⟩ := bind_eq_ok.mp h
  obtain ⟨edit, -, h⟩ := bind_eq_ok.mp h
  obtain ⟨body, hb, h⟩ := bind_eq_ok.mp h
  cases h
  exact ⟨id, edit, body, hb, told_of_requiredValue hid, rfl⟩

theorem kind_of_feature (h : feature k a = .ok f) : f.kind = k := by
  obtain ⟨id, edit, body, hb, -, rfl⟩ := feature_eq_ok h
  cases k with
  | node => obtain ⟨p, -, rfl⟩ := map_eq_ok.mp hb; rfl
  | way => cases hb; rfl
  | relation => cases hb; rfl

theorem id_of_feature (h : feature k a = .ok f) : a.told? "id" id? = some f.id := by
  obtain ⟨id, edit, body, -, hid, rfl⟩ := feature_eq_ok h
  exact hid

theorem tags_of_feature (h : feature k a = .ok f) : f.tags = .empty := by
  obtain ⟨id, edit, body, -, -, rfl⟩ := feature_eq_ok h
  rfl

theorem refs_of_feature (h : feature k a = .ok f) : f.refs = #[] := by
  obtain ⟨id, edit, body, hb, -, rfl⟩ := feature_eq_ok h
  cases k with
  | node => obtain ⟨p, -, rfl⟩ := map_eq_ok.mp hb; rfl
  | way => cases hb; rfl
  | relation => cases hb; rfl

theorem member_eq_ok {relation : Int} {sequence : Int32} {row : MemberRow}
    (h : member relation sequence a = .ok row) :
    ∃ m, a.member? = some m ∧ row = ⟨relation, m.ref, m.kind, m.role, sequence⟩ := by
  unfold member at h
  obtain ⟨word, hw, h⟩ := bind_eq_ok.mp h
  split at h
  · cases h
  · next kind hk =>
    obtain ⟨ref, href, h⟩ := bind_eq_ok.mp h
    cases h
    refine ⟨⟨kind, ref, a.get? "role"⟩, ?_, rfl⟩
    simp only [Attributes.member?, Assembler.required_eq_ok hw, told_of_requiredValue href,
      Option.bind_some, hk]
    rfl

end Reading
end MapTables
