import MapTables.Proofs.Assembly.Closings
import MapTables.Proofs.Assembly.Outline
import MapTables.Proofs.Table.Kept

/-!
# Documents of whole features

The assembler accepts the markup of any list of outlines, and makes their rows and totals.
-/

namespace MapTables

variable {α : Type}

/-! ## Tags of children -/

namespace Children

variable {done : List Child} {c : Child}

@[simp] theorem givenTags_concat : givenTags (done ++ [c]) = givenTags done ++ c.tag?.toList := by
  cases c <;> simp [givenTags, Child.tag?]

@[simp] theorem refs_concat : refs (done ++ [c]) = refs done ++ c.nodeRef?.toList := by
  cases c <;> simp [refs, Child.nodeRef?]

@[simp] theorem members_concat : members (done ++ [c]) = members done ++ c.member?.toList := by
  cases c <;> simp [members, Child.member?]

@[simp] theorem tags_concat_nodeRef (ref : Int) : tags (done ++ [.nodeRef ref]) = tags done := by
  simp [tags, Child.tag?]

@[simp] theorem tags_concat_member (m : Member) : tags (done ++ [.member m]) = tags done := by
  simp [tags, Child.tag?]

theorem tags_concat (key value : String) : tags (done ++ [.tag key value]) =
    if key ∈ (tags done).map Prod.fst then tags done else tags done ++ [(key, value)] := by
  have h := eraseDupsBy_loop_concat sameKey (givenTags done) [] (key, value)
  have hany : (tags done).any (sameKey (key, value)) = true ↔ key ∈ (tags done).map Prod.fst := by
    simp only [List.any_eq_true, List.mem_map, sameKey, beq_iff_eq]
    exact exists_congr fun t => and_congr_right fun _ => eq_comm
  unfold tags at hany ⊢
  rw [givenTags_concat]
  refine h.trans ?_
  simp only [← hany]
  rfl

theorem length_loop_le {r : α → α → Bool} (l seen : List α) :
    (List.eraseDupsBy.loop r l seen).length ≤ l.length + seen.length := by
  induction l generalizing seen with
  | nil => simp [List.eraseDupsBy.loop]
  | cons a l ih =>
    unfold List.eraseDupsBy.loop
    split
    · have := ih seen
      simp only [List.length_cons]
      omega
    · have := ih (a :: seen)
      simp only [List.length_cons] at this ⊢
      omega

theorem length_tags_le (cs : List Child) : (tags cs).length ≤ (givenTags cs).length :=
  length_loop_le (givenTags cs) []

theorem find?_loop (key : String) (l seen : List (String × String)) :
    (List.eraseDupsBy.loop sameKey l seen).find? (fun t => t.1 == key) =
      (seen.reverse ++ l).find? fun t => t.1 == key := by
  induction l generalizing seen with
  | nil => simp [List.eraseDupsBy.loop]
  | cons a l ih =>
    unfold List.eraseDupsBy.loop
    split
    · next ha =>
      obtain ⟨b, hb, hab⟩ := List.any_eq_true.mp ha
      rw [ih, List.find?_append, List.find?_append, List.find?_cons]
      cases hk : a.1 == key with
      | false => rfl
      | true =>
        have hs : (seen.reverse.find? fun t => t.1 == key).isSome = true := by
          rw [List.find?_isSome]
          refine ⟨b, List.mem_reverse.mpr hb, ?_⟩
          rw [sameKey, beq_iff_eq] at hab
          rw [← hab]
          exact hk
        obtain ⟨t, ht⟩ := Option.isSome_iff_exists.mp hs
        rw [ht]
        rfl
    · rw [ih]
      simp

theorem find?_tags (key : String) (cs : List Child) :
    (tags cs).find? (fun t => t.1 == key) = (givenTags cs).find? fun t => t.1 == key :=
  find?_loop key (givenTags cs) []

theorem memberRows_concat (relation : Int) (m : Member) :
    memberRows relation (done ++ [.member m]) = memberRows relation done ++
      [(.membersOf m.kind, .member
        ⟨relation, m.ref, m.kind, m.role, .ofNat ((members done).length + 1)⟩)] := by
  simp [memberRows, members, Child.member?, List.zipIdx_append]

end Children

/-! ## Reading what attributes tell -/

namespace Reading

variable {read : String → Option α} {a : Attributes} {name : String} {e : Element} {c : Context}

theorem optionalValue_of_tells {v : Option α} (h : a.Tells name read v) :
    optionalValue read e a name c = .ok v := by
  unfold Attributes.Tells at h
  unfold optionalValue
  cases hg : a.get? name with
  | none =>
    rw [hg] at h
    cases v with
    | none => rfl
    | some x => cases h
  | some text =>
    rw [hg] at h
    cases v with
    | none => cases h
    | some x =>
      have hr : read (Text.trim text) = some x := Option.some.inj h
      simp only [value, hr, Except.map]

theorem requiredValue_of_tells {v : α} (h : a.Tells name read (some v)) :
    requiredValue read e a name c = .ok v := by
  unfold Attributes.Tells at h
  unfold requiredValue required
  cases hg : a.get? name with
  | none =>
    rw [hg] at h
    cases h
  | some text =>
    rw [hg] at h
    have hr : read (Text.trim text) = some v := Option.some.inj h
    simp only [bind, Except.bind, value, hr]

theorem required_of_get? {v : String} (h : a.get? name = some v) :
    required e a name c = .ok v := by
  unfold required
  rw [h]

theorem edit_of_told {d : Edit} (h : a.TellEdit d) : edit e a c = .ok d := by
  unfold edit
  simp only [optionalValue_of_tells h.uid, optionalValue_of_tells h.visible,
    optionalValue_of_tells h.version, optionalValue_of_tells h.changeset,
    optionalValue_of_tells h.timestamp, h.user]
  rfl

theorem member_of_told {m : Member} (h : (Child.member m).ToldBy a) (relation : Int)
    (sequence : Int32) :
    member relation sequence a = .ok ⟨relation, m.ref, m.kind, m.role, sequence⟩ := by
  obtain ⟨hk, href, hrole⟩ := h
  obtain ⟨word, hw, hword⟩ := Option.bind_eq_some_iff.mp hk
  unfold member
  simp only [required_of_get? hw, requiredValue_of_tells href, hrole, hword, bind, Except.bind]
  rfl

end Reading

def Shape.body (refs : List Int) : Shape → Body
  | .node p => .node p
  | .way => .way refs.toArray
  | .relation => .relation

theorem Shape.kind_eq_way {s : Shape} : s.kind = .way ↔ s = .way := by cases s <;> simp [kind]

theorem Shape.kind_eq_relation {s : Shape} : s.kind = .relation ↔ s = .relation := by
  cases s <;> simp [kind]

@[simp] theorem Shape.kind_body (refs : List Int) (s : Shape) : (s.body refs).kind = s.kind := by
  cases s <;> rfl

theorem Position.ofCoordinates?_self (p : Position) :
    ofCoordinates? p.latitude p.longitude = some p := dif_pos p.finite

theorem Outline.ToldBy.feature {o : Outline} {a : Attributes} (h : o.ToldBy a) :
    Reading.feature o.kind a = .ok ⟨o.id, o.edit, .empty, o.shape.body []⟩ := by
  obtain ⟨id, edit, shape, children, fitting⟩ := o
  have hbody : Reading.body shape.kind id a = .ok (shape.body []) := by
    cases shape with
    | node p =>
      obtain ⟨hlat, hlon⟩ := h.shape
      simp only [Shape.kind, Reading.body, Reading.position, Reading.requiredValue_of_tells hlat,
        Reading.requiredValue_of_tells hlon, bind, Except.bind, p.ofCoordinates?_self]
      rfl
    | way => rfl
    | relation => rfl
  unfold Reading.feature
  simp only [Outline.kind, Reading.requiredValue_of_tells h.id, Reading.edit_of_told h.edit, hbody,
    bind, Except.bind]
  rfl

/-! ## What becomes of a whole feature -/

namespace Outline

variable (o : Outline)

/-- The feature of the outline, with its tags as an assembler holds them. -/
def feature (tags : Tags) : Feature := ⟨o.id, o.edit, tags, o.shape.body (Children.refs o.children)⟩

theorem members_eq_nil (h : o.kind ≠ .relation) : Children.members o.children = [] := by
  refine List.filterMap_eq_nil_iff.mpr fun c hc => ?_
  cases c with
  | member m => exact absurd (of_decide_eq_true (o.fitting _ hc)) h
  | _ => rfl

theorem refs_eq_nil (h : o.kind ≠ .way) : Children.refs o.children = [] := by
  refine List.filterMap_eq_nil_iff.mpr fun c hc => ?_
  cases c with
  | nodeRef ref => exact absurd (of_decide_eq_true (o.fitting _ hc)) h
  | _ => rfl

theorem refs_feature (tags : Tags) : (o.feature tags).refs.toList = Children.refs o.children := by
  unfold feature Feature.refs
  cases hs : o.shape with
  | way => rfl
  | _ => exact (o.refs_eq_nil (by rw [kind, hs]; nofun)).symm

variable {tags : Tags} (h : tags.entries = o.tags)
include h

theorem get?_of_entries (key : String) : tags.get? key = Children.value? o.children key := by
  rw [Tags.get?, h, Outline.tags, Children.find?_tags, Children.value?]

theorem ownRow_feature : (o.feature tags).ownRow = o.ownRow := by
  have hname : tags.name? = Children.value? o.children "name" := o.get?_of_entries h _
  have helevation : tags.elevation? = o.elevation? := by
    unfold Tags.elevation? elevation?
    rw [o.get?_of_entries h]
    rfl
  unfold feature Feature.ownRow ownRow
  cases o.shape with
  | relation => rfl
  | _ => simp only [Shape.body, hname, helevation]

theorem rows_feature : (o.feature tags).rows =
    (.ofFeature o.kind, o.ownRow) :: (o.tagRows ++ o.wayNodeRows) := by
  have hkind : (o.feature tags).kind = o.kind := Shape.kind_body _ _
  unfold Feature.rows Feature.tagRows Feature.wayNodeRows
  rw [hkind, o.ownRow_feature h, o.refs_feature]
  congr 2
  exact congrArg (List.map _) h

end Outline

/-! ## Inside a feature -/

def Counts.withChildren (n : Counts) (cs : List Child) : Counts :=
  { n with
    tags := n.tags + (Children.tags cs).length
    duplicateTags := n.duplicateTags +
      ((Children.givenTags cs).length - (Children.tags cs).length)
    nodeRefs := n.nodeRefs + (Children.refs cs).length
    members := n.members + (Children.members cs).length }

/-- An assembler with an outline's feature open, after some of its children. -/
structure Building (o : Outline) (before : Counts) (done : List Child) (a : Assembler) : Prop where
  isOpen : ∃ tags : Tags, tags.entries = Children.tags done ∧
    a.openFeature = some ⟨o.id, o.edit, tags, o.shape.body (Children.refs done)⟩
  next : a.nextSequence = .ofNat ((Children.members done).length + 1)
  counts : a.counts = before.withChildren done

structure Idle (before : Counts) (a : Assembler) : Prop where
  closed : a.openFeature = none
  next : a.nextSequence = firstSequence
  counts : a.counts = before

namespace Building

variable {o : Outline} {before : Counts} {done : List Child} {a : Assembler} {at' : Attributes}

theorem tag (h : Building o before done a) {key value : String}
    (told : (Child.tag key value).ToldBy at') :
    ∃ s, a.step (.start .tag at') = .ok s ∧ s.rows = [] ∧
      Building o before (done ++ [.tag key value]) s.next := by
  obtain ⟨⟨tags, htags, hopen⟩, hnext, hcounts⟩ := h
  obtain ⟨hk, hv⟩ := told
  have hle := Children.length_tags_le done
  have hkeys : tags.keys = (Children.tags done).map Prod.fst := by rw [Tags.keys, htags]
  have hconcat : Children.tags (done ++ [.tag key value]) = _ := Children.tags_concat key value
  change ∃ s, a.addTag at' = .ok s ∧ _
  unfold Assembler.addTag
  simp only [Reading.required_of_get? hk, Reading.required_of_get? hv, bind, Except.bind, hopen]
  cases hi : tags.insert? key value with
  | none =>
    rw [← hkeys, if_pos (Tags.insert?_eq_none_iff.mp hi)] at hconcat
    refine ⟨_, rfl, rfl, ⟨tags, htags.trans hconcat.symm, ?_⟩, ?_, ?_⟩
    · simp
    · simpa using hnext
    · simp [hcounts, Counts.withChildren, hconcat]
      omega
  | some tags' =>
    have hnew : key ∉ tags.keys := fun h => by
      rw [Tags.insert?_eq_none_iff.mpr h] at hi
      cases hi
    rw [← hkeys, if_neg hnew] at hconcat
    refine ⟨_, rfl, rfl, ⟨tags', ?_, ?_⟩, ?_, ?_⟩
    · rw [Tags.entries_of_insert? hi, hconcat, htags]
    · simp
    · simpa using hnext
    · simp [hcounts, Counts.withChildren, hconcat]
      omega

theorem nodeRef (h : Building o before done a) {ref : Int} (fits : o.kind = .way)
    (told : (Child.nodeRef ref).ToldBy at') :
    ∃ s, a.step (.start .nodeRef at') = .ok s ∧ s.rows = [] ∧
      Building o before (done ++ [.nodeRef ref]) s.next := by
  obtain ⟨⟨tags, htags, hopen⟩, hnext, hcounts⟩ := h
  have hshape : o.shape = .way := Shape.kind_eq_way.mp fits
  change ∃ s, a.addNodeRef at' = .ok s ∧ _
  unfold Assembler.addNodeRef
  rw [hshape] at hopen
  simp only [hopen, Shape.body, Reading.requiredValue_of_tells told, bind, Except.bind]
  refine ⟨_, rfl, rfl, ⟨tags, by simpa using htags, ?_⟩, ?_, ?_⟩
  · simp [hshape, Shape.body]
  · simpa using hnext
  · simp [hcounts, Counts.withChildren, Nat.add_assoc]

theorem member (h : Building o before done a) {m : Member} (fits : o.kind = .relation)
    (told : (Child.member m).ToldBy at') :
    ∃ s, a.step (.start .member at') = .ok s ∧
      Children.memberRows o.id (done ++ [.member m]) = Children.memberRows o.id done ++ s.rows ∧
      Building o before (done ++ [.member m]) s.next := by
  obtain ⟨⟨tags, htags, hopen⟩, hnext, hcounts⟩ := h
  have hshape : o.shape = .relation := Shape.kind_eq_relation.mp fits
  change ∃ s, a.addMember at' = .ok s ∧ _
  unfold Assembler.addMember
  rw [hshape] at hopen
  simp only [hopen, Shape.body, Reading.member_of_told told, bind, Except.bind]
  refine ⟨_, rfl, ?_, ⟨tags, by simpa using htags, ?_⟩, ?_, ?_⟩
  · rw [Children.memberRows_concat, hnext]
  · rw [hshape]
    rfl
  · simp [hnext]
  · simp [hcounts, Counts.withChildren, Nat.add_assoc]

theorem start (h : Building o before done a) {c : Child} (fits : c.fits o.kind = true)
    (told : c.ToldBy at') :
    ∃ s, a.step (.start c.element at') = .ok s ∧
      Children.memberRows o.id (done ++ [c]) = Children.memberRows o.id done ++ s.rows ∧
      Building o before (done ++ [c]) s.next := by
  cases c with
  | tag key value =>
    obtain ⟨s, hs, hrows, hb⟩ := h.tag told
    exact ⟨s, hs, by simp [Children.memberRows, hrows], hb⟩
  | nodeRef ref =>
    obtain ⟨s, hs, hrows, hb⟩ := h.nodeRef (of_decide_eq_true fits) told
    exact ⟨s, hs, by simp [Children.memberRows, hrows], hb⟩
  | member m => exact h.member (of_decide_eq_true fits) told

/-- Children are accepted one after the other, in whatever order they come. -/
theorem run {cs : List Child} {es : List Event} (h : Building o before done a)
    (hw : Child.Written cs es) (fits : ∀ c ∈ cs, c.fits o.kind = true) :
    ∃ b R, a.run es = .ok (b, R) ∧
      Children.memberRows o.id (done ++ cs) = Children.memberRows o.id done ++ R ∧
      Building o before (done ++ cs) b := by
  induction hw generalizing a done with
  | nil => exact ⟨a, [], rfl, by simp, by simpa using h⟩
  | @cons c cs at' es told rest ih =>
    obtain ⟨hc, hcs⟩ := List.forall_mem_cons.mp fits
    obtain ⟨s, hs, hrows, hb⟩ := h.start hc told
    have hclose : s.next.step (.close c.element) = .ok { next := s.next, change := .ignored } := by
      cases c <;> rfl
    obtain ⟨b, R, hr, hR, hb⟩ := ih hb hcs
    rw [List.append_assoc, List.singleton_append] at hR hb
    refine ⟨b, s.rows ++ R, ?_, by rw [hR, hrows, List.append_assoc], hb⟩
    exact Assembler.run_cons_eq_ok.mpr ⟨s, R, hs,
      Assembler.run_cons_eq_ok.mpr ⟨_, R, hclose, hr, rfl⟩, rfl⟩

theorem close (h : Building o before o.children a) :
    ∃ s, a.step (.close o.kind.element) = .ok s ∧
      s.rows = (.ofFeature o.kind, o.ownRow) :: (o.tagRows ++ o.wayNodeRows) ∧
      Idle ((before.withChildren o.children).addClosed o.kind) s.next := by
  obtain ⟨⟨tags, htags, hopen⟩, hnext, hcounts⟩ := h
  change a.openFeature = some (o.feature tags) at hopen
  have hkind : (o.feature tags).kind = o.kind := Shape.kind_body _ _
  change ∃ s, a.close _ = .ok s ∧ _
  unfold Assembler.close
  simp only [FeatureKind.feature?_element, hopen]
  rw [if_pos hkind]
  refine ⟨_, rfl, o.rows_feature htags, rfl, ?_, by rw [hcounts]⟩
  cases hk : o.kind with
  | relation => rfl
  | _ =>
    rw [o.members_eq_nil (by rw [hk]; nofun)] at hnext
    exact hnext

end Building

/-! ## Between features -/

namespace Idle

variable {before : Counts} {a : Assembler}

theorem start (h : Idle before a) {o : Outline} {at' : Attributes} (told : o.ToldBy at') :
    ∃ s, a.step (.start o.kind.element at') = .ok s ∧ s.rows = [] ∧
      Building o before [] s.next := by
  have hstart : a.step (.start o.kind.element at') =
      (Reading.feature o.kind at').map a.openWith := by
    cases o.kind <;> rfl
  rw [hstart, told.feature]
  refine ⟨_, rfl, ?_, ⟨.empty, rfl, Assembler.openWith_isOpen _⟩, ?_, ?_⟩
  all_goals simp only [Assembler.openWith, h.closed]
  · exact h.next
  · exact h.counts

theorem feature (h : Idle before a) {o : Outline} {at' : Attributes} {inner : List Event}
    (told : o.ToldBy at') (children : Child.Written o.children inner) :
    ∃ b, a.run (.start o.kind.element at' :: (inner ++ [.close o.kind.element])) =
        .ok (b, o.rows) ∧
      Idle ((before.withChildren o.children).addClosed o.kind) b := by
  obtain ⟨s, hs, hrows, hb⟩ := h.start told
  obtain ⟨c, R, hr, hR, hc⟩ := hb.run children o.fitting
  obtain ⟨t, ht, htrows, hi⟩ := hc.close
  rw [List.nil_append] at hR
  have hclose : c.run [.close o.kind.element] = .ok (t.next, t.rows) :=
    Assembler.run_cons_eq_ok.mpr ⟨t, [], ht, rfl, (List.append_nil _).symm⟩
  refine ⟨t.next, Assembler.run_cons_eq_ok.mpr ⟨s, R ++ t.rows, hs, ?_, ?_⟩, hi⟩
  · exact Assembler.run_append_eq_ok.mpr ⟨c, R, t.rows, hr, hclose, rfl⟩
  · rw [hrows, htrows, Outline.rows, hR]
    rfl

end Idle

/-! ## Totals -/

theorem Children.givenTags_append (cs ds : List Child) :
    givenTags (cs ++ ds) = givenTags cs ++ givenTags ds := List.filterMap_append

namespace Counts

def plus (m n : Counts) : Counts where
  nodes := m.nodes + n.nodes
  ways := m.ways + n.ways
  relations := m.relations + n.relations
  tags := m.tags + n.tags
  duplicateTags := m.duplicateTags + n.duplicateTags
  nodeRefs := m.nodeRefs + n.nodeRefs
  members := m.members + n.members

theorem empty_plus (n : Counts) : ({} : Counts).plus n = n := by simp [plus]

end Counts

namespace Outline

theorem length_tags_le (os : List Outline) :
    (os.flatMap Outline.tags).length ≤ (Children.givenTags (os.flatMap children)).length := by
  induction os with
  | nil => exact Nat.le_refl 0
  | cons o os ih =>
    have := Children.length_tags_le o.children
    rw [List.flatMap_cons, List.flatMap_cons, Children.givenTags_append, List.length_append,
      List.length_append]
    exact Nat.add_le_add this ih

theorem plus_totals (n : Counts) (o : Outline) (os : List Outline) :
    ((n.withChildren o.children).addClosed o.kind).plus (totals os) =
      n.plus (totals (o :: os)) := by
  have htags : o.tags = Children.tags o.children := rfl
  have hle := length_tags_le os
  have ho := Children.length_tags_le o.children
  have hrefs (cs ds : List Child) :
      Children.refs (cs ++ ds) = Children.refs cs ++ Children.refs ds :=
    List.filterMap_append
  have hmembers (cs ds : List Child) :
      Children.members (cs ++ ds) = Children.members cs ++ Children.members ds :=
    List.filterMap_append
  cases hk : o.kind
  all_goals
    simp only [Counts.plus, Counts.addClosed, Counts.withChildren, totals, List.flatMap_cons,
      Children.givenTags_append, hrefs, hmembers, htags, List.length_append, List.countP_cons, hk,
      Counts.mk.injEq, decide_true, reduceCtorEq, decide_false, Bool.false_eq_true, if_true,
      if_false]
    omega

end Outline

theorem Outline.InRange.numbered {o : Outline} (h : o.InRange) :
    Numbered (Children.memberRows o.id o.children) ∧ Numbered o.wayNodeRows :=
  ⟨numbered_zipIdx h.2 fun _ => rfl, numbered_zipIdx h.1 fun _ => rfl⟩

/-- The markup of any outlines is accepted, as long as no feature has more children than can be
numbered. Their rows come feature by feature, members and nodes of a way are numbered from one, and
the totals count them. -/
theorem Assembler.run_of_outlines {os : List Outline} {es : List Event}
    (h : Outline.Written os es) (inRange : ∀ o ∈ os, o.InRange) :
    ∃ a, ({} : Assembler).run es = .ok (a, os.flatMap Outline.rows) ∧
      (∀ o ∈ os, Numbered (Children.memberRows o.id o.children) ∧ Numbered o.wayNodeRows) ∧
      a.finish = .ok (Outline.totals os) := by
  suffices ∀ (n : Counts) (a : Assembler), Idle n a →
      ∃ b, a.run es = .ok (b, os.flatMap Outline.rows) ∧ Idle (n.plus (Outline.totals os)) b by
    obtain ⟨b, hb, hi⟩ := this {} {} ⟨rfl, rfl, rfl⟩
    refine ⟨b, hb, fun o ho => (inRange o ho).numbered, ?_⟩
    unfold Assembler.finish
    rw [hi.closed, hi.counts, Counts.empty_plus]
  clear inRange
  induction h with
  | nil => exact fun n a hi => ⟨a, rfl, hi⟩
  | @cons o os at' inner es told children rest ih =>
    intro n a hi
    obtain ⟨c, hc, hi⟩ := hi.feature told children
    obtain ⟨b, hb, hi⟩ := ih _ c hi
    rw [Outline.plus_totals] at hi
    refine ⟨b, ?_, hi⟩
    have hsplit : Event.start o.kind.element at' :: (inner ++ .close o.kind.element :: es) =
        (.start o.kind.element at' :: (inner ++ [.close o.kind.element])) ++ es := by simp
    rw [hsplit]
    exact Assembler.run_append_eq_ok.mpr ⟨c, o.rows, _, hc, hb, rfl⟩

theorem Assembler.run_of_peak_and_tour :
    let peak : Outline := ⟨7, { user := some "ann", version := some 2 },
      .node ⟨1.5, -2, by decide +kernel⟩,
      [.tag "ele" "12.5", .tag "name" "Peak", .tag "ele" "high"], by decide⟩
    let tour : Outline := ⟨8, {}, .relation,
      [.member ⟨.way, 9, some "leg"⟩, .tag "type" "route", .member ⟨.node, 7, none⟩], by decide⟩
    let peakTags : List Event := [
      .start .tag [("k", "ele"), ("v", "12.5")], .close .tag,
      .start .tag [("k", "name"), ("v", "Peak")], .close .tag,
      .start .tag [("k", "ele"), ("v", "high")], .close .tag]
    let tourParts : List Event := [
      .start .member [("type", "Way"), ("ref", "9"), ("role", "leg")], .close .member,
      .start .tag [("k", "type"), ("v", "route")], .close .tag,
      .start .member [("ref", "7"), ("type", "node")], .close .member]
    let markup : List Event :=
      .start .node [("id", "7"), ("lat", " 1.5"), ("lon", "-2"), ("user", "ann"), ("version", "2")]
        :: (peakTags ++ .close .node :: .start .relation [("id", "+8")]
          :: (tourParts ++ [.close .relation]))
    Outline.Written [peak, tour] markup ∧
      ∃ a, ({} : Assembler).run markup = .ok (a, [
          (.node, .node {
            id := 7, x := -2, y := 1.5, elevation := some 12.5, name := some "Peak",
            edit := { user := some "ann", version := some 2 } }),
          (.nodeTag, .tag ⟨7, "ele", "12.5"⟩),
          (.nodeTag, .tag ⟨7, "name", "Peak"⟩),
          (.wayMember, .member ⟨8, 9, .way, some "leg", 1⟩),
          (.nodeMember, .member ⟨8, 7, .node, none, 2⟩),
          (.relation, .relation { id := 8 }),
          (.relationTag, .tag ⟨8, "type", "route"⟩)]) ∧
        a.finish = .ok {
          nodes := 1, relations := 1, tags := 3, duplicateTags := 1, members := 2 } := by
  intro peak tour peakTags tourParts markup
  have hpeak : Child.Written peak.children peakTags :=
    .cons (by decide +kernel) (.cons (by decide +kernel) (.cons (by decide +kernel) .nil))
  have htour : Child.Written tour.children tourParts :=
    .cons (by decide +kernel) (.cons (by decide +kernel) (.cons (by decide +kernel) .nil))
  have hw : Outline.Written [peak, tour] markup :=
    .cons (by decide +kernel) hpeak (.cons (by decide +kernel) htour .nil)
  obtain ⟨a, hr, -, hf⟩ := Assembler.run_of_outlines hw (by decide)
  refine ⟨hw, a, hr.trans ?_, hf.trans ?_⟩
  · exact congrArg (fun R => Except.ok (a, R)) (by decide +kernel)
  · exact congrArg Except.ok (by decide +kernel)

end MapTables
