import MapTables.Proofs.Assembly.History
import MapTables.Proofs.Assembly.Keys
import MapTables.Proofs.Assembly.Told

/-!
# Totals and rows

Each total counts rows that were made, or tags and nodes of ways that came to rows, are held by
the open feature or went with a feature that was replaced.
-/

namespace MapTables

def Counts.ofKind (c : Counts) : FeatureKind → Nat
  | .node => c.nodes
  | .way => c.ways
  | .relation => c.relations

theorem Counts.ofKind_addClosed (c : Counts) (j k : FeatureKind) :
    (c.addClosed k).ofKind j = c.ofKind j + if k = j then 1 else 0 := by
  cases j <;> cases k <;> rfl

namespace Row

def isOwnOf (k : FeatureKind) (r : Row) : Bool := r.feature?.map Prod.fst == some k

def isTag : Row → Bool
  | .tag _ => true
  | _ => false

def isWayNode : Row → Bool
  | .wayNode _ => true
  | _ => false

end Row

def tagsHeld (fs : List Feature) : Nat := (fs.flatMap fun f => f.tags.entries).length

def refsHeld (fs : List Feature) : Nat := (fs.flatMap fun f => f.refs.toList).length

/-! ## The rows of one feature -/

namespace Feature

variable (f : Feature)

theorem countP_rows (p : Row → Bool) : f.rows.countP (fun r => p r.2) =
    (if p f.ownRow then 1 else 0) + f.tagRows.countP (fun r => p r.2) +
      f.wayNodeRows.countP fun r => p r.2 := by
  rw [rows, List.countP_cons, List.countP_append, Nat.add_comm, ← Nat.add_assoc]

theorem countP_tagRows {p : Row → Bool} {b : Bool} (h : ∀ r, p (.tag r) = b) :
    f.tagRows.countP (fun r => p r.2) = if b then tagsHeld [f] else 0 := by
  rw [tagRows, List.countP_map]
  cases b <;> simp [Function.comp_def, h, tagsHeld]

theorem countP_wayNodeRows {p : Row → Bool} {b : Bool} (h : ∀ r, p (.wayNode r) = b) :
    f.wayNodeRows.countP (fun r => p r.2) = if b then refsHeld [f] else 0 := by
  rw [wayNodeRows, List.countP_map]
  cases b <;> simp [Function.comp_def, h, refsHeld]

theorem feature?_ownRow : f.ownRow.feature? = some (f.kind, f.id) := by
  obtain ⟨id, edit, tags, body⟩ := f
  cases body <;> rfl

theorem isMember_ownRow : f.ownRow.isMember = false := (mem_rows List.mem_cons_self).2.2

theorem isTag_ownRow : f.ownRow.isTag = false := by
  obtain ⟨id, edit, tags, body⟩ := f
  cases body <;> rfl

theorem isWayNode_ownRow : f.ownRow.isWayNode = false := by
  obtain ⟨id, edit, tags, body⟩ := f
  cases body <;> rfl

theorem countP_isOwnOf (k : FeatureKind) :
    f.rows.countP (fun r => r.2.isOwnOf k) = if f.kind = k then 1 else 0 := by
  rw [f.countP_rows, f.countP_tagRows (b := false) fun _ => rfl,
    f.countP_wayNodeRows (b := false) fun _ => rfl, Row.isOwnOf, feature?_ownRow]
  simp

theorem countP_isMember : f.rows.countP (fun r => r.2.isMember) = 0 := by
  rw [f.countP_rows, f.countP_tagRows (b := false) fun _ => rfl,
    f.countP_wayNodeRows (b := false) fun _ => rfl, isMember_ownRow]
  rfl

theorem countP_isTag : f.rows.countP (fun r => r.2.isTag) = tagsHeld [f] := by
  rw [f.countP_rows, f.countP_tagRows (b := true) fun _ => rfl,
    f.countP_wayNodeRows (b := false) fun _ => rfl, isTag_ownRow]
  simp

theorem countP_isWayNode : f.rows.countP (fun r => r.2.isWayNode) = refsHeld [f] := by
  rw [f.countP_rows, f.countP_tagRows (b := false) fun _ => rfl,
    f.countP_wayNodeRows (b := true) fun _ => rfl, isWayNode_ownRow]
  simp

end Feature

theorem tagsHeld_append (fs gs : List Feature) :
    tagsHeld (fs ++ gs) = tagsHeld fs + tagsHeld gs := by
  simp [tagsHeld]

theorem refsHeld_append (fs gs : List Feature) :
    refsHeld (fs ++ gs) = refsHeld fs + refsHeld gs := by
  simp [refsHeld]

theorem tagsHeld_of_feature {k : FeatureKind} {attributes : Attributes} {f : Feature}
    (h : Reading.feature k attributes = .ok f) : tagsHeld [f] = 0 := by
  simp [tagsHeld, Reading.tags_of_feature h]

theorem refsHeld_of_feature {k : FeatureKind} {attributes : Attributes} {f : Feature}
    (h : Reading.feature k attributes = .ok f) : refsHeld [f] = 0 := by
  simp [refsHeld, Reading.refs_of_feature h]

theorem tagsHeld_of_insert? {f : Feature} {tags : Tags} {key value : String}
    (h : f.tags.insert? key value = some tags) : tagsHeld [{ f with tags }] = tagsHeld [f] + 1 := by
  simp [tagsHeld, Tags.entries_of_insert? h]

theorem refsHeld_push {f : Feature} {refs : Array Int} (h : f.body = .way refs) (ref : Int) :
    refsHeld [{ f with body := .way (refs.push ref) }] = refsHeld [f] + 1 := by
  simp [refsHeld, Feature.refs, h]

/-! ## One event -/

namespace Assembler

variable {a : Assembler} {e : Event} {s : Step}

theorem Takes.ofKind_eq (h : a.Takes e s) (k : FeatureKind) : s.next.counts.ofKind k =
    a.counts.ofKind k + s.rows.countP fun r => r.2.isOwnOf k := by
  cases h with
  | opens => rw [openWith_counts, openWith_rows]; rfl
  | closes isOpen kind =>
    rw [Feature.countP_isOwnOf, kind]
    apply Counts.ofKind_addClosed
  | _ => cases k <;> rfl

theorem Takes.members_eq (h : a.Takes e s) : s.next.counts.members =
    a.counts.members + s.rows.countP fun r => r.2.isMember := by
  cases h with
  | opens => rw [openWith_counts, openWith_rows]; rfl
  | @closes k f =>
    rw [Feature.countP_isMember]
    cases k <;> rfl
  | _ => rfl

theorem openWith_replaced {f : Feature} : replaced [⟨a, e, .ok (a.openWith f).change⟩] =
    a.openFeature.toList := by
  rw [openWith_change]
  simp only [replaced, List.filterMap_cons, Answered.replaced?, Answered.opens, if_true]
  cases a.openFeature <;> rfl

theorem Takes.tags_eq (h : a.Takes e s) :
    s.next.counts.tags + tagsHeld a.openFeature.toList =
      a.counts.tags + s.rows.countP (fun r => r.2.isTag) + tagsHeld s.next.openFeature.toList +
        tagsHeld (replaced [⟨a, e, .ok s.change⟩]) := by
  cases h with
  | opens read =>
    rw [openWith_replaced, openWith_counts, openWith_rows, openWith_isOpen, Option.toList_some,
      tagsHeld_of_feature read]
    rfl
  | tags hk hv isOpen new =>
    rw [isOpen, Option.toList_some, Option.toList_some, tagsHeld_of_insert? new]
    simp [replaced, Answered.replaced?, Answered.opens, tagsHeld]
    omega
  | repeats => rfl
  | refers isOpen isWay => rw [isOpen]; rfl
  | joins isOpen => rfl
  | ignores => rfl
  | @closes k f isOpen kind =>
    rw [Feature.countP_isTag, isOpen]
    cases k <;> rfl

theorem Takes.refs_eq (h : a.Takes e s) :
    s.next.counts.nodeRefs + refsHeld a.openFeature.toList =
      a.counts.nodeRefs + s.rows.countP (fun r => r.2.isWayNode) +
        refsHeld s.next.openFeature.toList + refsHeld (replaced [⟨a, e, .ok s.change⟩]) := by
  cases h with
  | opens read =>
    rw [openWith_replaced, openWith_counts, openWith_rows, openWith_isOpen, Option.toList_some,
      refsHeld_of_feature read]
    rfl
  | tags hk hv isOpen => rw [isOpen]; rfl
  | repeats => rfl
  | refers isOpen isWay =>
    rw [isOpen, Option.toList_some, Option.toList_some, refsHeld_push isWay]
    simp [replaced, Answered.replaced?, Answered.opens, refsHeld]
    omega
  | joins isOpen => rfl
  | ignores => rfl
  | @closes k f isOpen kind =>
    rw [Feature.countP_isWayNode, isOpen]
    cases k <;> rfl

theorem Takes.taken_eq (h : a.Takes e s) :
    s.next.counts.tags + s.next.counts.duplicateTags =
      a.counts.tags + a.counts.duplicateTags +
        [(⟨a, e, .ok s.change⟩ : Answered)].countP (Answered.starts .tag) := by
  cases h with
  | @opens k => rw [openWith_counts]; cases k <;> rfl
  | tags => exact Nat.add_right_comm ..
  | repeats => rfl
  | refers => rfl
  | joins => rfl
  | ignores => rfl
  | @closes k => cases k <;> rfl

theorem Takes.opened_eq (h : a.Takes e s) :
    [(⟨a, e, .ok s.change⟩ : Answered)].countP Answered.opens + a.openFeature.toList.length =
      [(⟨a, e, .ok s.change⟩ : Answered)].countP Answered.closes +
        (replaced [⟨a, e, .ok s.change⟩]).length + s.next.openFeature.toList.length := by
  cases h with
  | opens =>
    rw [openWith_replaced, openWith_isOpen, openWith_change]
    simp [Answered.opens, Answered.closes, Change.closes, Nat.add_comm]
  | tags hk hv isOpen => rw [isOpen]; rfl
  | repeats => rfl
  | refers isOpen => rw [isOpen]; rfl
  | joins => rfl
  | ignores => rfl
  | closes isOpen => rw [isOpen]; rfl

end Assembler

/-! ## Histories -/

/-- The totals of an assembler balance with its rows, its open feature and what it answered. -/
structure Tallied (H : List Answered) (a : Assembler) (R : List Placed) : Prop where
  own : ∀ k, a.counts.ofKind k = R.countP fun r => r.2.isOwnOf k
  features : a.counts.features = H.countP Answered.closes
  members : a.counts.members = R.countP fun r => r.2.isMember
  tags : a.counts.tags = R.countP (fun r => r.2.isTag) + tagsHeld a.openFeature.toList +
    tagsHeld (replaced H)
  nodeRefs : a.counts.nodeRefs = R.countP (fun r => r.2.isWayNode) +
    refsHeld a.openFeature.toList + refsHeld (replaced H)
  taken : a.counts.tags + a.counts.duplicateTags = H.countP (Answered.starts .tag)
  opened : H.countP Answered.opens = H.countP Answered.closes + (replaced H).length +
    a.openFeature.toList.length

namespace Tallied

variable {H : List Answered} {a : Assembler} {R : List Placed} {e : Event} {s : Step}

theorem initial : Tallied [] {} [] := by
  constructor
  · intro k
    cases k <;> rfl
  all_goals rfl

theorem refuse (h : Tallied H a R) (e : Event) (fault : AssemblyFault) :
    Tallied (H ++ [⟨a, e, .error fault⟩]) a R := by
  have hr : replaced (H ++ [⟨a, e, .error fault⟩]) = replaced H :=
    (replaced_append H _).trans (List.append_nil _)
  have ht : Answered.starts .tag ⟨a, e, .error fault⟩ = false := by
    cases e <;> simp [Answered.starts, Answered.isAccepted, Except.isOk, Except.toBool]
  constructor
  · exact h.own
  · rw [List.countP_append, h.features]; rfl
  · exact h.members
  · rw [hr]; exact h.tags
  · rw [hr]; exact h.nodeRefs
  · rw [List.countP_append, h.taken, List.countP_singleton, ht]; rfl
  · rw [hr, List.countP_append, List.countP_append, h.opened]; rfl

theorem take (h : Tallied H a R) (hs : a.Takes e s) :
    Tallied (H ++ [⟨a, e, .ok s.change⟩]) s.next (R ++ s.rows) := by
  constructor
  · intro k
    rw [hs.ofKind_eq, h.own, List.countP_append]
  · rw [hs.features_eq, h.features, List.countP_append, List.countP_singleton]
    rfl
  · rw [hs.members_eq, h.members, List.countP_append]
  · have ht := hs.tags_eq
    rw [h.tags] at ht
    rw [List.countP_append, replaced_append, tagsHeld_append]
    omega
  · have hr := hs.refs_eq
    rw [h.nodeRefs] at hr
    rw [List.countP_append, replaced_append, refsHeld_append]
    omega
  · rw [hs.taken_eq, h.taken, List.countP_append]
  · have ho := hs.opened_eq
    have hH := h.opened
    rw [List.countP_append, List.countP_append, replaced_append, List.length_append]
    omega

end Tallied

namespace Assembling

theorem tallied_history (es : List Event) : Tallied (blank.history es)
    (blank.dispatchAll es).2.assembler (blank.dispatchAll es).2.sink.toList :=
  history_induction .initial (fun _ _ _ e fault h _ => h.refuse e fault)
    (fun _ _ _ _ _ h hs => h.take hs) es

/-- Whatever events come, refused ones among them, the totals balance. The features, by kind and
together, and the members are those whose rows were made. Tags and nodes of ways that were counted
came to rows, are held by the open feature or went with a feature that was replaced; every accepted
tag was counted, as one that was taken or as a duplicate. Each opened feature was closed, was
replaced or is open. -/
theorem totals_balance (es : List Event) :
    let H := blank.history es
    let a := (blank.dispatchAll es).2.assembler
    let rows := (blank.dispatchAll es).2.sink.toList
    (∀ k, a.counts.ofKind k = rows.countP fun r => r.2.isOwnOf k) ∧
    a.counts.features = H.countP Answered.closes ∧
    a.counts.members = rows.countP (fun r => r.2.isMember) ∧
    a.counts.tags = rows.countP (fun r => r.2.isTag) + tagsHeld a.openFeature.toList +
      tagsHeld (replaced H) ∧
    a.counts.nodeRefs = rows.countP (fun r => r.2.isWayNode) + refsHeld a.openFeature.toList +
      refsHeld (replaced H) ∧
    a.counts.tags + a.counts.duplicateTags = H.countP (Answered.starts .tag) ∧
    H.countP Answered.opens = H.countP Answered.closes + (replaced H).length +
      if a.openFeature.isSome then 1 else 0 := by
  intro H a rows
  have h := tallied_history es
  refine ⟨h.own, h.features, h.members, h.tags, h.nodeRefs, h.taken, ?_⟩
  rw [h.opened, Option.length_toList]

end Assembling
end MapTables
