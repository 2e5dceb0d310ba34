import MapTables.Proofs.Assembly.Closings
import MapTables.Proofs.Assembly.Told

/-!
# Owners of rows

A tag, a node of a way and a member each belong to a feature. Where no feature is open in
the end, that feature has a row of its own, except for members: those became rows at once,
and their relation may have been given up.
-/

namespace MapTables

/-- The kind of the features that the rows of a table are, or belong to. -/
def TableKind.ownerKind : TableKind → FeatureKind
  | .node | .nodeTag => .node
  | .way | .wayTag | .wayNode => .way
  | .relation | .relationTag | .nodeMember | .wayMember | .relationMember => .relation

namespace Row

def feature? : Row → Option (FeatureKind × Int)
  | .node r => some (.node, r.id)
  | .way r => some (.way, r.id)
  | .relation r => some (.relation, r.id)
  | _ => none

/-- The id of the feature that the row belongs to and is not the own row of. -/
def owner? : Row → Option Int
  | .tag r => some r.owner
  | .wayNode r => some r.way
  | .member r => some r.relation
  | _ => none

def isMember : Row → Bool
  | .member _ => true
  | _ => false

end Row

def HasRowOf (kind : FeatureKind) (id : Int) (rows : List Placed) : Prop :=
  ∃ r ∈ rows, r.1 = .ofFeature kind ∧ r.2.feature? = some (kind, id)

instance (kind : FeatureKind) (id : Int) (rows : List Placed) :
    Decidable (HasRowOf kind id rows) := List.decidableBEx _ rows

def Event.marksFeature : Event → Bool
  | .start e _ => e.feature?.isSome
  | .close e => e.feature?.isSome

/-- The feature that is open before these events is given up: another one is opened before any
is closed. -/
def givenUp (es : List Event) : Bool := (es.find? Event.marksFeature).any Event.opensFeature

/-- Where accepted events and their rows leave each row's owner. -/
structure Owned (es : List Event) (R : List Placed) : Prop where
  parts : ∀ k r id, (k, r) ∈ R → r.owner? = some id → r.isMember = false →
    HasRowOf k.ownerKind id R
  /-- So has the relation of a member, unless it was given up after the member came. -/
  members : ∀ before e after a S s, es = before ++ e :: after →
    ({} : Assembler).run before = .ok (a, S) → a.step e = .ok s →
    ∀ k r id, (k, r) ∈ s.rows → r.owner? = some id → r.isMember = true →
      HasRowOf k.ownerKind id R ∨ givenUp after = true

theorem HasRowOf.mono {kind : FeatureKind} {id : Int} {R S : List Placed}
    (h : HasRowOf kind id R) (hs : R ⊆ S) : HasRowOf kind id S :=
  let ⟨r, hr, hf⟩ := h
  ⟨r, hs hr, hf⟩

@[simp] theorem TableKind.ownerKind_tagsOf (k : FeatureKind) : (tagsOf k).ownerKind = k := by
  cases k <;> rfl

@[simp] theorem TableKind.ownerKind_membersOf (k : FeatureKind) :
    (membersOf k).ownerKind = .relation := by cases k <;> rfl

/-! ## The rows of one feature -/

namespace Feature

theorem hasRowOf_rows (f : Feature) : HasRowOf f.kind f.id f.rows := by
  refine ⟨(.ofFeature f.kind, f.ownRow), List.mem_cons_self, rfl, ?_⟩
  obtain ⟨id, edit, tags, body⟩ := f
  cases body <;> rfl

theorem owner?_ownRow (f : Feature) : f.ownRow.owner? = none := by
  obtain ⟨id, edit, tags, body⟩ := f
  cases body <;> rfl

theorem kind_of_refs {f : Feature} {ref : Int} (h : ref ∈ f.refs) : f.kind = .way := by
  obtain ⟨id, edit, tags, body⟩ := f
  cases body with
  | way => rfl
  | _ => exact absurd h (Array.not_mem_empty ref)

theorem owner_of_mem_rows {f : Feature} {k : TableKind} {r : Row} {id : Int}
    (h : (k, r) ∈ f.rows) (ho : r.owner? = some id) :
    k.ownerKind = f.kind ∧ id = f.id ∧ r.isMember = false := by
  unfold rows at h
  rw [List.mem_cons, List.mem_append] at h
  rcases h with h | h | h
  · cases h
    rw [owner?_ownRow] at ho
    cases ho
  · obtain ⟨⟨key, value⟩, -, he⟩ := List.mem_map.mp h
    cases he
    cases ho
    exact ⟨TableKind.ownerKind_tagsOf _, rfl, rfl⟩
  · obtain ⟨⟨ref, i⟩, hm, he⟩ := List.mem_map.mp h
    cases he
    cases ho
    have hr := (List.mem_zipIdx hm).2.2 ▸ List.getElem_mem _
    exact ⟨(kind_of_refs (Array.mem_toList_iff.mp hr)).symm, rfl, rfl⟩

end Feature

/-! ## Steps -/

namespace Assembler

variable {a b : Assembler} {e : Event} {s : Step} {f : Feature}

theorem relation_of_member {relation : Int} {sequence : Int32} {attributes : Attributes}
    {row : MemberRow}
    (h : Reading.member relation sequence attributes = .ok row) :
    row.relation = relation ∧ row.sequence = sequence := by
  obtain ⟨m, -, rfl⟩ := Reading.member_eq_ok h
  exact ⟨rfl, rfl⟩

theorem Takes.rows_cases (h : a.Takes e s) : s.rows = [] ∨
    (∃ f, a.openFeature = some f ∧ s.rows = f.rows) ∨
    ∃ f row, a.openFeature = some f ∧ f.kind = .relation ∧ row.relation = f.id ∧
      e.marksFeature = false ∧ s.rows = [(.membersOf row.kind, .member row)] := by
  cases h with
  | opens =>
    left
    unfold openWith
    split <;> rfl
  | tags | repeats | refers | ignores => exact Or.inl rfl
  | @joins _ f row isOpen isRelation read =>
    refine Or.inr (Or.inr ⟨f, row, isOpen, ?_, (relation_of_member read).1, rfl, rfl⟩)
    rw [Feature.kind, isRelation]
    rfl
  | closes isOpen => exact Or.inr (Or.inl ⟨_, isOpen, rfl⟩)

theorem Takes.context_eq (h : a.Takes e s) (hm : e.marksFeature = false) :
    s.next.context = a.context := by
  cases h with
  | @opens k => simp [Event.marksFeature] at hm
  | tags hk hv isOpen => rw [context, context, isOpen]; rfl
  | refers isOpen isWay => simp [context, isOpen, Feature.kind, isWay, Body.kind]
  | repeats | joins | ignores => rfl
  | @closes k => simp [Event.marksFeature] at hm

theorem Takes.goes_on (h : a.Takes e s) (hf : a.openFeature = some f)
    (hm : e.marksFeature = false) :
    ∃ g, s.next.openFeature = some g ∧ g.kind = f.kind ∧ g.id = f.id := by
  have hc := h.context_eq hm
  rw [context, context, hf] at hc
  obtain ⟨g, hg, he⟩ := Option.map_eq_some_iff.mp hc
  exact ⟨g, hg, congrArg Prod.fst he, congrArg Prod.snd he⟩

theorem Takes.ends (h : a.Takes e s) (hf : a.openFeature = some f) (hm : e.marksFeature = true) :
    e.opensFeature = true ∨ s.rows = f.rows := by
  cases h with
  | opens => exact Or.inl hm
  | tags | repeats | refers | joins => cases hm
  | ignores child => simp [Event.marksFeature, child] at hm
  | closes isOpen =>
    cases hf.symm.trans isOpen
    exact Or.inr rfl

/-! ## Runs -/

variable {es : List Event} {R : List Placed}

/-- A feature that is open gets its row, or it is given up. -/
theorem hasRowOf_or_givenUp (h : a.run es = .ok (b, R)) (hb : b.openFeature = none)
    (hf : a.openFeature = some f) : HasRowOf f.kind f.id R ∨ givenUp es = true := by
  induction es generalizing a f R with
  | nil =>
    cases h
    rw [hf] at hb
    cases hb
  | cons e es ih =>
    obtain ⟨s, S, hs, hr, rfl⟩ := run_cons_eq_ok.mp h
    have ht := takes_of_step hs
    unfold givenUp
    cases hm : e.marksFeature with
    | true =>
      rw [List.find?_cons_of_pos hm, Option.any_some]
      rcases ht.ends hf hm with ho | hrows
      · exact Or.inr ho
      · rw [hrows]
        exact Or.inl (f.hasRowOf_rows.mono (List.subset_append_left _ _))
    | false =>
      rw [List.find?_cons_of_neg (by simp [hm])]
      obtain ⟨g, hg, hk, hi⟩ := ht.goes_on hf hm
      rw [← hk, ← hi]
      exact (ih hr hg).imp_left fun h => h.mono (List.subset_append_right _ _)

theorem hasRowOf_of_part (h : a.run es = .ok (b, R)) {k : TableKind} {r : Row} {id : Int}
    (hr : (k, r) ∈ R) (ho : r.owner? = some id) (hm : r.isMember = false) :
    HasRowOf k.ownerKind id R := by
  induction es generalizing a R with
  | nil =>
    cases h
    cases hr
  | cons e es ih =>
    obtain ⟨s, S, hs, hrun, rfl⟩ := run_cons_eq_ok.mp h
    rw [List.mem_append] at hr
    rcases hr with hr | hr
    · rcases (takes_of_step hs).rows_cases with hn | ⟨f, -, hrows⟩ | ⟨f, row, -, -, -, -, hrows⟩
      · rw [hn] at hr
        cases hr
      · rw [hrows] at hr ⊢
        obtain ⟨hk, rfl, -⟩ := Feature.owner_of_mem_rows hr ho
        rw [hk]
        exact f.hasRowOf_rows.mono (List.subset_append_left _ _)
      · rw [hrows, List.mem_singleton] at hr
        cases hr
        cases hm
    · exact (ih hrun hr).mono (List.subset_append_right _ _)

theorem owned_of_run (h : ({} : Assembler).run es = .ok (b, R)) (hb : b.openFeature = none) :
    Owned es R := by
  refine ⟨fun k r id hr => hasRowOf_of_part h hr, ?_⟩
  rintro before e after a S s rfl hbefore hs k r id hr ho hm
  obtain ⟨c, S', T, hS, hT, rfl⟩ := run_append_eq_ok.mp h
  cases hbefore.symm.trans hS
  obtain ⟨s', U, hs', hU, rfl⟩ := run_cons_eq_ok.mp hT
  cases hs.symm.trans hs'
  have ht := takes_of_step hs
  rcases ht.rows_cases with hn | ⟨f, -, hrows⟩ | ⟨f, row, hf, hk, hid, hmark, hrows⟩
  · rw [hn] at hr
    cases hr
  · rw [hrows] at hr
    rw [(Feature.owner_of_mem_rows hr ho).2.2] at hm
    cases hm
  · rw [hrows, List.mem_singleton] at hr
    cases hr
    cases ho
    obtain ⟨g, hg, hgk, hgi⟩ := ht.goes_on hf hmark
    rw [TableKind.ownerKind_membersOf, ← hk, hid, ← hgk, ← hgi]
    refine (hasRowOf_or_givenUp hU hb hg).imp_left fun h => h.mono ?_
    exact List.Subset.trans (List.subset_append_right _ _) (List.subset_append_right _ _)

end Assembler
end MapTables
