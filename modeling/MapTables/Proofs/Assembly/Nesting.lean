import Mathlib.Data.List.Basic
import MapTables.Proofs.Assembly.Told
import MapTables.Proofs.Assembly.Totals
import MapTables.Proofs.Markup.Written

/-!
# Features within features

The assembler keeps one feature and no stack of elements, and lets a feature be opened over
another. In well-nested markup the other one's end tag is then refused, or that of an element
around it: the features that end are as many as those that start, so if nothing is refused none
was replaced.
-/

namespace MapTables

namespace Forest

def elements : Forest → List (Element × Attributes)
  | nil => []
  | cons e a inside rest => (e, a) :: (inside.elements ++ rest.elements)

def features (F : Forest) : List (FeatureKind × Attributes) :=
  F.elements.filterMap fun (e, a) => e.feature?.map (·, a)

/-- An element of the first name has one of the second inside it, at any depth. -/
inductive Nests : Forest → Element → Element → Prop
  | here {outer inner : Element} {a b : Attributes} {inside rest : Forest}
      (isInside : (inner, b) ∈ inside.elements) : Nests (cons outer a inside rest) outer inner
  | within {e outer inner : Element} {a : Attributes} {inside rest : Forest}
      (nests : Nests inside outer inner) : Nests (cons e a inside rest) outer inner
  | behind {e outer inner : Element} {a : Attributes} {inside rest : Forest}
      (nests : Nests rest outer inner) : Nests (cons e a inside rest) outer inner

variable {F : Forest} {e : Element} {a : Attributes} {inside rest : Forest}

theorem features_cons : (cons e a inside rest).features =
    (e.feature?.map (·, a)).toList ++ (inside.features ++ rest.features) := by
  cases h : e.feature? <;> simp [features, elements, h]

theorem feature?_of_features (h : F.features = []) {b : Attributes} (he : (e, b) ∈ F.elements) :
    e.feature? = none := by
  have := List.filterMap_eq_nil_iff.mp h _ he
  exact Option.map_eq_none_iff.mp this

theorem features_events (F : Forest) : F.events.filterMap Event.feature? = F.features := by
  induction F with
  | nil => rfl
  | cons e a inside rest ihi ihr =>
    rw [features_cons, events, List.filterMap_cons, List.filterMap_append, List.filterMap_cons, ihi,
      ihr]
    cases h : e.feature? <;> simp [Event.feature?, h]

end Forest

theorem Forest.countP_endsFeature (F : Forest) :
    F.events.countP Event.endsFeature = F.events.countP Event.opensFeature := by
  induction F with
  | nil => rfl
  | cons e a inside rest ihi ihr =>
    have hs : Event.opensFeature (.start e a) = Event.endsFeature (.close e) := rfl
    have hn : Event.endsFeature (.start e a) = Event.opensFeature (.close e) := rfl
    rw [events, List.countP_cons, List.countP_cons, List.countP_append, List.countP_append,
      List.countP_cons, List.countP_cons, ihi, ihr, hs, hn]
    omega

/-- The kind and the id of a feature, as its opening tag tells them. -/
def identity? (p : FeatureKind × Attributes) : Option (FeatureKind × Int) :=
  (p.2.told? "id" Reading.id?).map (p.1, ·)

theorem Feature.filterMap_rows (f : Feature) :
    f.rows.filterMap (fun r => r.2.feature?) = [(f.kind, f.id)] := by
  rw [rows, List.filterMap_cons, feature?_ownRow, List.filterMap_append, tagRows, wayNodeRows,
    List.filterMap_map, List.filterMap_map]
  simp [Function.comp_def, Row.feature?]

/-! ## Accepted events -/

namespace Assembler

variable {a : Assembler} {e : Event} {s : Step}

theorem Takes.opens_eq (h : a.Takes e s) :
    (⟨a, e, .ok s.change⟩ : Answered).opens = e.opensFeature := by
  cases h with
  | opens => rw [openWith_change]; simp [Answered.opens, Event.opensFeature]
  | _ => rfl

theorem Takes.closes_eq (h : a.Takes e s) :
    (⟨a, e, .ok s.change⟩ : Answered).closes = e.endsFeature := h.change_closes

theorem Takes.stays {e : Element} (h : a.Takes (.close e) s) (child : e.feature? = none)
    (isOpen : a.openFeature ≠ none) : s.next.openFeature ≠ none := by
  cases h with
  | ignores => exact isOpen
  | closes => simp at child

theorem Takes.identities_eq (h : a.Takes e s)
    (kept : (⟨a, e, .ok s.change⟩ : Answered).replaced? = none) :
    a.context.toList.map some ++
        ([⟨a, e, .ok s.change⟩].filterMap Answered.opening?).map identity? =
      (s.rows.filterMap (fun r => r.2.feature?) ++ s.next.context.toList).map some := by
  have hc := h.context_eq
  cases h with
  | @opens k attributes f read =>
    rw [openWith_change] at kept ⊢
    have hn : a.openFeature = none := kept
    have ho : Answered.opening? ⟨a, .start k.element attributes, .ok (.opened f.kind)⟩ =
        some (k, attributes) := by cases k <;> rfl
    have hi : identity? (k, attributes) = some (k, f.id) := by
      rw [identity?, Reading.id_of_feature read]
      rfl
    rw [context, hn, List.filterMap_cons_some ho, openWith_rows, context, openWith_isOpen,
      Option.map_some, Reading.kind_of_feature read, List.map_cons, hi]
    rfl
  | tags | repeats | refers => rw [hc rfl]; exact List.append_nil _
  | joins => exact List.append_nil _
  | ignores => exact List.append_nil _
  | closes isOpen =>
    rw [context, isOpen, Feature.filterMap_rows]
    rfl

end Assembler

namespace Assembling

variable {κ : Type} [RowSink κ] {w : Assembling κ} {e : Event} {es fs : List Event}

/-- All events are accepted, and no feature is replaced. -/
def Smooth (w : Assembling κ) (es : List Event) : Prop :=
  ∀ x ∈ w.history es, x.isAccepted = true ∧ x.replaced? = none

theorem smooth_append : w.Smooth (es ++ fs) ↔
    w.Smooth es ∧ (w.dispatchAll es).2.Smooth fs := by
  unfold Smooth
  rw [history_append, List.forall_mem_append]

theorem Smooth.cons (h : w.Smooth (e :: es)) : ∃ s, w.assembler.Takes e s ∧
    (w.dispatchAll (e :: es)).2 = ((w.take s).dispatchAll es).2 ∧ (w.take s).Smooth es ∧
    (e.opensFeature = true → w.assembler.openFeature = none) := by
  obtain ⟨hx, h⟩ := List.forall_mem_cons.mp h
  cases hs : w.assembler.step e with
  | error fault =>
    rw [dispatch_of_fault hs] at hx
    cases hx.1
  | ok s =>
    have ht := Assembler.takes_of_step hs
    rw [dispatch_of_step hs] at hx h
    rw [dispatchAll_cons, dispatch_of_step hs]
    refine ⟨s, ht, rfl, h, fun ho => ?_⟩
    have hn := hx.2
    rw [Answered.replaced?, ht.opens_eq, ho] at hn
    exact hn

theorem Smooth.features_eq_nil {F : Forest} (h : w.Smooth F.events)
    (isOpen : w.assembler.openFeature ≠ none) :
    F.features = [] ∧ (w.dispatchAll F.events).2.assembler.openFeature ≠ none := by
  induction F generalizing w with
  | nil => exact ⟨rfl, isOpen⟩
  | cons e a inside rest ihi ihr =>
    obtain ⟨s, hs, hd, h, ho⟩ := h.cons
    obtain ⟨hi, h⟩ := smooth_append.mp h
    obtain ⟨t, ht, hd', h, -⟩ := h.cons
    obtain ⟨hin, hstill⟩ := ihi hi hs.isOpen
    have he : e.feature? = none := by
      cases hk : e.feature? with
      | none => rfl
      | some k => exact absurd (ho (by simp [Event.opensFeature, hk])) isOpen
    obtain ⟨hrn, hlast⟩ := ihr h (ht.stays he hstill)
    rw [Forest.features_cons, he, hin, hrn, Forest.events, hd, dispatchAll_append, hd']
    exact ⟨rfl, hlast⟩

theorem Smooth.not_nests {F : Forest} (h : w.Smooth F.events) {outer inner : Element}
    (nests : F.Nests outer inner) : inner.feature? = none := by
  induction nests generalizing w with
  | here isInside =>
    obtain ⟨s, hs, -, h, -⟩ := h.cons
    exact Forest.feature?_of_features
      ((smooth_append.mp h).1.features_eq_nil hs.isOpen).1 isInside
  | within nests ih =>
    obtain ⟨s, hs, -, h, -⟩ := h.cons
    exact ih (smooth_append.mp h).1
  | behind nests ih =>
    obtain ⟨s, hs, -, h, -⟩ := h.cons
    obtain ⟨t, ht, -, h, -⟩ := (smooth_append.mp h).2.cons
    exact ih h

theorem countP_history {p : Answered → Bool} {q : Event → Bool}
    (accepted : ∀ x ∈ w.history es, x.isAccepted = true)
    (h : ∀ a e s, Assembler.Takes a e s → p ⟨a, e, .ok s.change⟩ = q e) :
    (w.history es).countP p = es.countP q := by
  calc (w.history es).countP p = (w.history es).countP (q ∘ Answered.event) := by
        apply List.countP_congr
        intro x hx
        obtain ⟨s, ht, ha⟩ := takes_of_mem_history hx (accepted x hx)
        rw [Function.comp_apply, ← h _ _ _ ht, ← ha]
    _ = ((w.history es).map Answered.event).countP q := List.countP_map.symm
    _ = es.countP q := by rw [events_history]

theorem openings_history (accepted : ∀ x ∈ w.history es, x.isAccepted = true) :
    (w.history es).filterMap Answered.opening? = es.filterMap Event.feature? := by
  calc (w.history es).filterMap Answered.opening? =
        (w.history es).filterMap (Event.feature? ∘ Answered.event) :=
      List.filterMap_congr fun x hx => if_pos (accepted x hx)
    _ = ((w.history es).map Answered.event).filterMap Event.feature? := List.filterMap_map.symm
    _ = es.filterMap Event.feature? := by rw [events_history]

/-! ## Forests -/

variable {F : Forest}

theorem none_replaced_of_accepted (accepted : ∀ x ∈ blank.history F.events, x.isAccepted = true) :
    replaced (blank.history F.events) = [] ∧
      (blank.dispatchAll F.events).2.assembler.openFeature = none := by
  -- Each opened feature was closed, was replaced or is open, and as many were closed as opened.
  have h := (tallied_history F.events).opened
  rw [countP_history accepted fun _ _ _ h => h.opens_eq,
    countP_history accepted fun _ _ _ h => h.closes_eq, F.countP_endsFeature] at h
  constructor
  · apply List.length_eq_zero_iff.mp
    omega
  · apply Option.toList_eq_nil_iff.mp
    apply List.length_eq_zero_iff.mp
    omega

theorem identities_history (es : List Event) (kept : replaced (blank.history es) = []) :
    ((blank.history es).filterMap Answered.opening?).map identity? =
      ((blank.dispatchAll es).2.sink.toList.filterMap (fun r => r.2.feature?) ++
        (blank.dispatchAll es).2.assembler.context.toList).map some := by
  revert kept
  refine history_induction (P := fun H a R => replaced H = [] →
    (H.filterMap Answered.opening?).map identity? =
      (R.filterMap (fun r => r.2.feature?) ++ a.context.toList).map some) ?_ ?_ ?_ es
  · intro _
    rfl
  · intro H a R e fault ih _ kept
    rw [replaced_append, List.append_eq_nil_iff] at kept
    rw [List.filterMap_append, List.map_append, ih kept.1]
    exact List.append_nil _
  · intro H a R e s ih hs kept
    rw [replaced_append, List.append_eq_nil_iff] at kept
    rw [List.filterMap_append, List.map_append, ih kept.1, List.filterMap_append]
    have h := hs.identities_eq (List.filterMap_eq_nil_iff.mp kept.2 _ List.mem_cons_self)
    rw [List.map_append, List.append_assoc, List.append_assoc, List.map_append, ← h]

/-- A forest whose events are all accepted has no feature inside of an element, and so none inside
of a feature. No feature was replaced while it was open, none is open in the end, and each has a
row of its own, with its kind and its id, in the order of the forest. -/
theorem nested_features_refused (F : Forest)
    (accepted : ∀ answer ∈ (blank.dispatchAll F.events).1, answer.isOk = true) :
    let w := (blank.dispatchAll F.events).2
    (∀ outer inner, F.Nests outer inner → inner.feature? = none) ∧
    replaced (blank.history F.events) = [] ∧
    w.assembler.finish = .ok w.assembler.counts ∧
    F.features.map identity? = (w.sink.toList.filterMap fun r => r.2.feature?).map some := by
  intro w
  have hx : ∀ x ∈ blank.history F.events, x.isAccepted = true := by
    rw [← answers_history] at accepted
    exact fun x hx => accepted _ (List.mem_map_of_mem hx)
  obtain ⟨kept, closed⟩ := none_replaced_of_accepted hx
  have smooth : blank.Smooth F.events := fun x h => ⟨hx x h, List.filterMap_eq_nil_iff.mp kept x h⟩
  refine ⟨fun _ _ nests => smooth.not_nests nests, kept, ?_, ?_⟩
  · rw [Assembler.finish, closed]
  · have h := identities_history F.events kept
    rw [openings_history hx, F.features_events, Assembler.context, closed] at h
    rw [h]
    exact congrArg (List.map some) (List.append_nil _)

/-- A relation and a way, with a tag inside the relation's member. -/
theorem nested_features_refused_of_tag_in_member :
    let tag := Forest.cons .tag [("k", "type"), ("v", "route")] .nil .nil
    let way := Forest.cons .way [("id", "2")] (.cons .nodeRef [("ref", "5")] .nil .nil) .nil
    let F := Forest.cons .relation [("id", "1")]
      (.cons .member [("type", "way"), ("ref", "2")] tag .nil) way
    let rows := (blank.dispatchAll F.events).2.sink.toList
    (∀ answer ∈ (blank.dispatchAll F.events).1, answer.isOk = true) ∧
    F.Nests .member .tag ∧ F.features.length = 2 ∧
    replaced (blank.history F.events) = [] ∧
    F.features.map identity? = (rows.filterMap fun r => r.2.feature?).map some ∧
    rows.filterMap (fun r => r.2.feature?) = [(.relation, 1), (.way, 2)] := by
  intro tag way F rows
  have accepted : ∀ answer ∈ (blank.dispatchAll F.events).1, answer.isOk = true := by
    decide +kernel
  obtain ⟨-, kept, -, own⟩ := nested_features_refused F accepted
  refine ⟨accepted, .within (.here List.mem_cons_self), by decide +kernel, kept, own, ?_⟩
  decide +kernel

end Assembling
end MapTables
