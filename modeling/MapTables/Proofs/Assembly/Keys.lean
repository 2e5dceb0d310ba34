import MapTables.Proofs.Assembly.Range
import MapTables.Proofs.Table.Key

/-!
# Keys of assembled rows

Where no feature is opened twice the rows of accepted events have different keys, even if
features are given up on the way: the tags of a feature have different keys, and its nodes or
members different places, as long as there are not too many to be numbered.
-/

namespace MapTables

namespace Placed

def key (r : Placed) : TableKind × RowKey := (r.1, r.2.key)

/-- The feature of which this is the own row or to which the row belongs. -/
def feature (r : Placed) : FeatureKind × Int := (r.1.ownerKind, r.2.key.id)

end Placed

def Step.opened? (s : Step) : Context :=
  match s.change with
  | .opened _ => s.next.context
  | _ => none

/-- The features that are opened before an event is refused. -/
def Assembler.opened (a : Assembler) : List Event → List (FeatureKind × Int)
  | [] => []
  | e :: es =>
    match a.step e with
    | .error _ => []
    | .ok s => s.opened?.toList ++ s.next.opened es

@[simp] theorem Step.opened?_openWith (a : Assembler) (f : Feature) :
    (a.openWith f).opened? = some (f.kind, f.id) := by
  unfold opened?
  rw [Assembler.openWith_change, Assembler.context, Assembler.openWith_isOpen]
  rfl

@[simp] theorem Assembler.openWith_rows (a : Assembler) (f : Feature) :
    (a.openWith f).rows = [] := by
  unfold openWith
  split <;> rfl

/-! ## The rows of one feature -/

theorem TableKind.takes_member {k : TableKind} {m : MemberRow} {r : Row}
    (hm : k.takes (.member m) = true) (hr : k.takes r = true) : r.isMember = true := by
  obtain rfl := of_decide_eq_true hm
  cases r with
  | member _ => rfl
  | _ => cases m with | mk _ _ kind _ _ => cases kind <;> cases hr

namespace Feature

theorem mem_rows {f : Feature} {r : Placed} (h : r ∈ f.rows) :
    r.1.takes r.2 = true ∧ Placed.feature r = (f.kind, f.id) ∧ r.2.isMember = false := by
  unfold rows at h
  rw [List.mem_cons, List.mem_append] at h
  rcases h with rfl | h | h
  · obtain ⟨id, edit, tags, body⟩ := f
    cases body <;> exact ⟨rfl, rfl, rfl⟩
  · obtain ⟨⟨key, value⟩, -, rfl⟩ := List.mem_map.mp h
    exact ⟨TableKind.holdsTags_tagsOf _, by simp [Placed.feature, Row.key, RowKey.id], rfl⟩
  · obtain ⟨⟨ref, i⟩, hm, rfl⟩ := List.mem_map.mp h
    have hr := (List.mem_zipIdx hm).2.2 ▸ List.getElem_mem _
    rw [kind_of_refs (Array.mem_toList_iff.mp hr)]
    exact ⟨rfl, rfl, rfl⟩

theorem nodup_tagRows (f : Feature) : (f.tagRows.map Placed.key).Nodup := by
  have h : (f.tags.entries.map Prod.fst).Pairwise (· ≠ ·) := f.tags.distinct
  rw [List.pairwise_map] at h
  rw [tagRows, List.map_map, List.Nodup, List.pairwise_map]
  refine h.imp fun hne he => hne ?_
  simpa [Placed.key, Row.key] using he

theorem nodup_wayNodeRows {f : Feature} (h : f.refs.size ≤ mostNumbered) :
    (f.wayNodeRows.map Placed.key).Nodup := by
  have hplaces : (f.refs.toList.zipIdx.map Prod.snd).Pairwise (· ≠ ·) := by
    rw [List.zipIdx_map_snd]
    exact List.nodup_range'
  rw [List.pairwise_map] at hplaces
  rw [wayNodeRows, List.map_map, List.Nodup, List.pairwise_map]
  refine hplaces.imp_of_mem fun hx hy hne he => hne ?_
  have hx := List.snd_lt_of_mem_zipIdx hx
  have hy := List.snd_lt_of_mem_zipIdx hy
  rw [Array.length_toList] at hx hy
  have hnumber := congrArg (fun key : TableKind × RowKey => key.2) he
  simp only [Function.comp, Placed.key, Row.key, RowKey.place.injEq] at hnumber
  have := congrArg Int32.toInt hnumber.2
  rw [toInt_ofNat (by omega), toInt_ofNat (by omega)] at this
  omega

theorem key_ownRow (f : Feature) : f.ownRow.key = .feature f.id := by
  obtain ⟨id, edit, tags, body⟩ := f
  cases body <;> rfl

theorem nodup_rows {f : Feature} (h : f.refs.size ≤ mostNumbered) :
    (f.rows.map Placed.key).Nodup := by
  rw [rows, List.map_cons, List.map_append, List.nodup_cons, List.nodup_append]
  refine ⟨fun h => ?_, f.nodup_tagRows, nodup_wayNodeRows h, ?_⟩
  · rw [Placed.key, key_ownRow] at h
    simp [Placed.key, tagRows, wayNodeRows, Row.key] at h
  · intro x hx y hy he
    simp only [tagRows, wayNodeRows, List.map_map, List.mem_map] at hx hy
    obtain ⟨_, -, rfl⟩ := hx
    obtain ⟨_, -, rfl⟩ := hy
    cases (Prod.mk.inj he).2

end Feature

/-! ## Runs -/

/-- Rows fit their tables, belong to features that were opened, and have different keys. -/
structure Keyed (opened : List (FeatureKind × Int)) (R : List Placed) : Prop where
  fits : ∀ r ∈ R, r.1.takes r.2 = true
  known : ∀ r ∈ R, Placed.feature r ∈ opened
  distinct : (R.map Placed.key).Nodup

/-- Beside rows with different keys an assembler that will add to them. -/
structure Keying (opened : List (FeatureKind × Int)) (R : List Placed) (a : Assembler) :
    Prop extends Keyed opened R where
  current : ∀ f, a.openFeature = some f → (f.kind, f.id) ∈ opened
  /-- Of the open feature there are members at most, with numbers that went by. -/
  past : ∀ f, a.openFeature = some f → ∀ r ∈ R, Placed.feature r = (f.kind, f.id) →
    ∃ m, r.2 = .member m ∧ m.sequence.toInt < a.nextSequence.toInt

theorem Placed.feature_eq_of_key_eq {r r' : Placed} (h : r.key = r'.key) :
    Placed.feature r = Placed.feature r' :=
  congrArg (fun key : TableKind × RowKey => (key.1.ownerKind, key.2.id)) h

theorem Keyed.append {opened : List (FeatureKind × Int)} {R S : List Placed}
    (h : Keyed opened R) (hs : Keyed opened S)
    (apart : ∀ r ∈ R, ∀ r' ∈ S, r.key ≠ Placed.key r') : Keyed opened (R ++ S) where
  fits := List.forall_mem_append.mpr ⟨h.fits, hs.fits⟩
  known := List.forall_mem_append.mpr ⟨h.known, hs.known⟩
  distinct := by
    rw [List.map_append, List.nodup_append]
    refine ⟨h.distinct, hs.distinct, fun x hx y hy => ?_⟩
    obtain ⟨r, hr, rfl⟩ := List.mem_map.mp hx
    obtain ⟨r', hr', rfl⟩ := List.mem_map.mp hy
    exact apart r hr r' hr'

namespace Keying

variable {a b : Assembler} {e : Event} {s : Step} {es fs : List Event} {R S : List Placed}
  {opened : List (FeatureKind × Int)}

theorem initial : Keying [] [] {} where
  fits := fun _ h => (List.not_mem_nil h).elim
  known := fun _ h => (List.not_mem_nil h).elim
  distinct := List.nodup_nil
  current := fun _ h => nomatch h
  past := fun _ h => nomatch h

theorem openWith (h : Keying opened R a) {f : Feature} (hf : (f.kind, f.id) ∉ opened) :
    Keying (opened ++ [(f.kind, f.id)]) R (a.openWith f).next where
  fits := h.fits
  known := fun r hr => List.mem_append_left _ (h.known r hr)
  distinct := h.distinct
  current := fun g hg => by
    rw [Assembler.openWith_isOpen] at hg
    cases hg
    exact List.mem_append_right _ List.mem_cons_self
  past := fun g hg r hr hrf => by
    rw [Assembler.openWith_isOpen] at hg
    cases hg
    exact (hf (hrf ▸ h.known r hr)).elim

theorem keep (h : Keying opened R a) (hb : ∀ g, b.openFeature = some g →
      ∃ f, a.openFeature = some f ∧ (f.kind, f.id) = (g.kind, g.id))
    (hn : b.nextSequence = a.nextSequence) : Keying opened R b where
  toKeyed := h.toKeyed
  current := fun g hg => by
    obtain ⟨f, hf, he⟩ := hb g hg
    exact he ▸ h.current f hf
  past := fun g hg r hr hrf => by
    obtain ⟨f, hf, he⟩ := hb g hg
    rw [hn]
    exact h.past f hf r hr (hrf.trans he.symm)

theorem join (h : Keying opened R a) {f : Feature} {row : MemberRow} (c : Counts)
    (hf : a.openFeature = some f) (hk : f.kind = .relation)
    (read : row.relation = f.id ∧ row.sequence = a.nextSequence)
    (next : (a.nextSequence + 1).toInt = a.nextSequence.toInt + 1) :
    Keying opened (R ++ [(.membersOf row.kind, .member row)])
      { a with nextSequence := a.nextSequence + 1, counts := c } := by
  have hfeature : Placed.feature (.membersOf row.kind, .member row) = (f.kind, f.id) := by
    simp [Placed.feature, Row.key, RowKey.id, hk, read.1]
  refine ⟨h.toKeyed.append ⟨?_, ?_, ?_⟩ ?_, h.current, ?_⟩
  · simp [TableKind.takes]
  · rintro r (_ | ⟨_, ⟨⟩⟩)
    exact hfeature ▸ h.current f hf
  · simp
  · rintro r hr r' (_ | ⟨_, ⟨⟩⟩) he
    obtain ⟨m, hm, hlt⟩ := h.past f hf r hr ((Placed.feature_eq_of_key_eq he).trans hfeature)
    have hp := congrArg Prod.snd he
    rw [Placed.key, Placed.key, hm] at hp
    simp only [Row.key, RowKey.place.injEq] at hp
    rw [hp.2, read.2] at hlt
    exact Int.lt_irrefl _ hlt
  · intro g hg r hr hrf
    cases hf.symm.trans hg
    rw [List.mem_append, List.mem_singleton] at hr
    rcases hr with hr | rfl
    · obtain ⟨m, hm, hlt⟩ := h.past f hf r hr hrf
      exact ⟨m, hm, next ▸ Int.lt_trans hlt (Int.lt_succ _)⟩
    · exact ⟨row, rfl, next ▸ read.2 ▸ Int.lt_succ _⟩

theorem close (h : Keying opened R a) {f : Feature} (hf : a.openFeature = some f)
    (refs : f.refs.size ≤ mostNumbered) (sequence : Int32) (c : Counts) :
    Keying opened (R ++ f.rows)
      { openFeature := none, nextSequence := sequence, counts := c } := by
  refine ⟨h.toKeyed.append
    ⟨fun r hr => (Feature.mem_rows hr).1, fun r hr => ?_, Feature.nodup_rows refs⟩
    fun r hr r' hr' he => ?_, fun _ h => (nomatch h), fun _ h => (nomatch h)⟩
  · rw [(Feature.mem_rows hr).2.1]
    exact h.current f hf
  · obtain ⟨hfits, hfeature, hmember⟩ := Feature.mem_rows hr'
    obtain ⟨m, hm, -⟩ :=
      h.past f hf r hr ((Placed.feature_eq_of_key_eq he).trans hfeature)
    have htable : r.1 = r'.1 := congrArg (fun key : TableKind × RowKey => key.1) he
    have hr := h.fits r hr
    rw [hm, htable] at hr
    rw [TableKind.takes_member hr hfits] at hmember
    cases hmember

theorem step (h : Keying opened R a) {n : Nat} (within : a.Within n) (hs : a.Takes e s)
    (hn : e.tallied n ≤ mostNumbered) (new : (opened ++ s.opened?.toList).Nodup) :
    Keying (opened ++ s.opened?.toList) (R ++ s.rows) s.next := by
  cases hs with
  | @opens _ _ f =>
    rw [Step.opened?_openWith, Option.toList_some] at new ⊢
    rw [Assembler.openWith_rows, List.append_nil]
    exact h.openWith fun hf => (List.nodup_append.mp new).2.2 _ hf _ List.mem_cons_self rfl
  | tags _ _ isOpen =>
    simp only [Step.opened?, Option.toList_none, List.append_nil]
    exact h.keep (fun g hg => by cases hg; exact ⟨_, isOpen, rfl⟩) rfl
  | repeats _ _ isOpen =>
    simp only [Step.opened?, Option.toList_none, List.append_nil]
    exact h.keep (fun g hg => ⟨g, hg, rfl⟩) rfl
  | refers isOpen isWay =>
    simp only [Step.opened?, Option.toList_none, List.append_nil]
    refine h.keep (fun g hg => ?_) rfl
    cases hg
    exact ⟨_, isOpen, by simp only [Feature.kind, isWay]; rfl⟩
  | joins isOpen isRelation read =>
    simp only [Step.opened?, Option.toList_none, List.append_nil]
    exact h.join _ isOpen (by rw [Feature.kind, isRelation]; rfl)
      (Assembler.relation_of_member read) (toInt_succ within.next (Nat.le_succ_of_le hn))
  | ignores =>
    simp only [Step.opened?, Option.toList_none, List.append_nil]
    exact h.keep (fun g hg => ⟨g, hg, rfl⟩) rfl
  | closes isOpen =>
    simp only [Step.opened?, Option.toList_none, List.append_nil]
    exact h.close isOpen (Nat.le_trans (within.refs _ isOpen) hn) _ _

theorem run (h : Keying opened R a) {n : Nat} (within : a.Within n) (hrun : a.run es = .ok (b, S))
    (hes : inRange n es) (new : (opened ++ a.opened es).Nodup) :
    Keying (opened ++ a.opened es) (R ++ S) b := by
  induction es generalizing a R S opened n with
  | nil =>
    cases hrun
    simpa only [Assembler.opened, List.append_nil] using h
  | cons e es ih =>
    obtain ⟨s, T, hs, hr, rfl⟩ := Assembler.run_cons_eq_ok.mp hrun
    simp only [Assembler.opened, hs] at new ⊢
    rw [← List.append_assoc] at new ⊢
    rw [← List.append_assoc]
    have ht := Assembler.takes_of_step hs
    have hes := (Bool.and_eq_true_iff.mp hes).2
    have hn := le_of_inRange hes
    exact ih (h.step within ht hn (List.nodup_append.mp new).1) (within.take ht hn) hr hes new

end Keying

namespace Assembler

variable {a b : Assembler} {es fs : List Event} {R : List Placed}

/-- Where no feature is opened twice all rows have different keys. -/
theorem keyed_of_run (h : ({} : Assembler).run es = .ok (b, R)) (hes : inRange 0 es)
    (new : (({} : Assembler).opened es).Nodup) : Keyed (({} : Assembler).opened es) R :=
  (Keying.initial.run within_initial h hes new).toKeyed

theorem opened_append (h : a.run es = .ok (b, R)) (fs : List Event) :
    a.opened (es ++ fs) = a.opened es ++ b.opened fs := by
  induction es generalizing a R with
  | nil =>
    cases h
    rfl
  | cons e es ih =>
    obtain ⟨s, T, hs, hr, rfl⟩ := run_cons_eq_ok.mp h
    simp only [List.cons_append, opened, hs, ih hr, List.append_assoc]

end Assembler

theorem Keyed.accepts {opened : List (FeatureKind × Int)} {R : List Placed} (h : Keyed opened R)
    (k : TableKind) : k.Accepts (rowsFor k R) := by
  constructor
  · intro r hr
    obtain ⟨p, hp, rfl⟩ := List.mem_map.mp hr
    obtain ⟨hp, hk⟩ := List.mem_filter.mp hp
    exact beq_iff_eq.mp hk ▸ h.fits p hp
  · have hd := h.distinct
    rw [List.Nodup, List.pairwise_map] at hd
    rw [rowsFor, List.map_map, List.Nodup, List.pairwise_map]
    refine List.pairwise_filter.mpr (hd.imp fun hne ha hb he => hne ?_)
    exact Prod.ext ((beq_iff_eq.mp ha).trans (beq_iff_eq.mp hb).symm) he

end MapTables
