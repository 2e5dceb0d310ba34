import MapTables.Proofs.Assembly.Told
import MapTables.Proofs.Load.Plain
import MapTables.Proofs.Markup.Leftover

/-!
# Ends that go unnoticed

A text may end with elements open, or within a construct, and yet come to rows. These are
the ways in which it does.
-/

namespace MapTables

namespace Assembler

variable {a : Assembler} {k : FeatureKind} {e : Element} {attributes : Attributes}
  {event : Event} {events : List Event} {s : Step}

/-- The events are all accepted and leave no feature open. -/
def Completes (a : Assembler) (events : List Event) : Prop :=
  ∃ b R, a.run events = .ok (b, R) ∧ b.openFeature = none

theorem completes_nil : a.Completes [] ↔ a.openFeature = none := by
  constructor
  · rintro ⟨b, R, hr, hb⟩
    cases hr
    exact hb
  · intro ha
    exact ⟨a, [], rfl, ha⟩

theorem completes_cons :
    a.Completes (event :: events) ↔ ∃ s, a.step event = .ok s ∧ s.next.Completes events := by
  constructor
  · rintro ⟨b, R, hr, hb⟩
    obtain ⟨s, S, hs, hr, -⟩ := run_cons_eq_ok.mp hr
    exact ⟨s, hs, b, S, hr, hb⟩
  · rintro ⟨s, hs, b, S, hr, hb⟩
    exact ⟨b, s.rows ++ S, run_cons_eq_ok.mpr ⟨s, S, hs, hr, rfl⟩, hb⟩

theorem state_eq_none : a.state = none ↔ a.openFeature = none := Option.map_eq_none_iff

/-! ## Elements at the end -/

theorem not_completes_start : ¬ a.Completes [.start e attributes] := by
  intro h
  obtain ⟨s, hs, h⟩ := completes_cons.mp h
  exact (takes_of_step hs).isOpen (completes_nil.mp h)

theorem completes_close : a.Completes [.close e] ↔ a.state = e.feature? := by
  constructor
  · intro h
    obtain ⟨s, hs, h⟩ := completes_cons.mp h
    have hn := completes_nil.mp h
    cases takes_of_step hs with
    | ignores child => rw [child, state_eq_none]; exact hn
    | closes isOpen kind => rw [state, isOpen, FeatureKind.feature?_element, ← kind]; rfl
  · intro h
    refine completes_cons.mpr ?_
    simp only [step, close]
    cases hk : e.feature? with
    | none =>
      rw [hk, state_eq_none] at h
      exact ⟨_, rfl, completes_nil.mpr h⟩
    | some k =>
      rw [hk] at h
      obtain ⟨f, hf, rfl⟩ := Option.map_eq_some_iff.mp h
      simp only [hf, if_true]
      exact ⟨_, rfl, completes_nil.mpr rfl⟩

theorem start_feature (a : Assembler) (k : FeatureKind) (attributes : Attributes) :
    a.start k.element attributes = (Reading.feature k attributes).map a.openWith := by
  cases k <;> rfl

theorem completes_empty : a.Completes [.start e attributes, .close e] ↔
    ∃ k f, e = k.element ∧ Reading.feature k attributes = .ok f := by
  constructor
  · intro h
    obtain ⟨s, hs, h⟩ := completes_cons.mp h
    have hopen := (takes_of_step hs).isOpen
    rw [completes_close] at h
    cases hk : e.feature? with
    | none => rw [hk, state_eq_none] at h; exact absurd h hopen
    | some k =>
      have he := element_of_feature? hk
      subst he
      rw [step, start_feature] at hs
      obtain ⟨f, hf, -⟩ := map_eq_ok.mp hs
      exact ⟨k, f, rfl, hf⟩
  · rintro ⟨k, f, rfl, hf⟩
    refine completes_cons.mpr ⟨a.openWith f, ?_, ?_⟩
    · rw [step, start_feature, hf]
      rfl
    · rw [completes_close, state, openWith_isOpen, FeatureKind.feature?_element,
        ← Reading.kind_of_feature hf]
      rfl

end Assembler

namespace Markup

/-! ## Constructs at the end -/

/-- A construct that the input may end in without anyone noticing. -/
inductive Overlooked (a : Assembler) (names : List Bytes) : Part → Prop
  | passed (closed : a.openFeature = none) : Overlooked a names .passed
  /-- The innermost element ends, which is the open feature or lies outside of all. -/
  | closes {content : Bytes} (innermost : names.head? = some (trimEnd content.tail))
      (complete : a.state =
        (Element.ofName? (Tag.localName (trimEnd content.tail))).bind Element.feature?) :
      Overlooked a names (.closes content)
  | other {content : Bytes} (closed : a.openFeature = none)
      (unknown : Element.ofName? (Tag.localName (tagName content)) = none) :
      Overlooked a names (.opens content)
  /-- A whole feature that lacks nothing but its `>`. -/
  | feature {content : Bytes} {k : FeatureKind} {attributes : Attributes} {f : Feature}
      (empty : content.getLast? = some 0x2F)
      (known : Element.ofName? (Tag.localName (tagName content)) = some k.element)
      (tagged : Tag.attributes (tagInner content) (tagName content).length = .ok attributes)
      (read : Reading.feature k attributes = .ok f) : Overlooked a names (.opens content)

variable {a : Assembler} {names : List Bytes} {content : Bytes} {part : Part}

theorem overlooked_closes_iff :
    (∃ e, closeTag names content = .ok e ∧ e.fault = none ∧ a.Completes e.events) ↔
      Overlooked a names (.closes content) := by
  have completes : a.Completes ((Element.ofName? (Tag.localName (trimEnd content.tail))).map
      Event.close).toList ↔ a.state =
        (Element.ofName? (Tag.localName (trimEnd content.tail))).bind Element.feature? := by
    cases Element.ofName? (Tag.localName (trimEnd content.tail)) with
    | none => exact Assembler.completes_nil.trans Assembler.state_eq_none.symm
    | some e => exact Assembler.completes_close
  constructor
  · rintro ⟨e, he, -, hc⟩
    unfold closeTag at he
    split at he
    · cases he
    · next expected names =>
      simp only at he
      split at he
      · next hn =>
        cases he
        exact .closes (by rw [hn]; rfl) (completes.mp hc)
      · cases he
  · rintro ⟨⟩
    next innermost complete =>
    cases names with
    | nil => cases innermost
    | cons expected names =>
      cases innermost
      exact ⟨_, if_pos rfl, rfl, completes.mpr complete⟩

theorem openTag_completes : (openTag names content).fault = none ∧
    a.Completes (openTag names content).events ↔
      ∃ events, elementEvents (tagName content) (tagInner content)
        (content.getLast? == some 0x2F) = .ok events ∧ a.Completes events := by
  rw [openTag_eq]
  simp only
  split
  · next events he =>
    rw [he]
    constructor
    · rintro ⟨-, hc⟩
      exact ⟨events, rfl, hc⟩
    · rintro ⟨_, h, hc⟩
      cases h
      exact ⟨rfl, hc⟩
  · next fault he =>
    rw [he]
    constructor
    · rintro ⟨h, -⟩
      cases h
    · rintro ⟨_, h, -⟩
      cases h

theorem overlooked_opens_iff :
    (openTag names content).fault = none ∧ a.Completes (openTag names content).events ↔
      Overlooked a names (.opens content) := by
  rw [openTag_completes]
  unfold elementEvents
  constructor
  · rintro ⟨events, he, hc⟩
    split at he
    · next unknown =>
      cases he
      exact .other (Assembler.completes_nil.mp hc) unknown
    · next e known =>
      obtain ⟨attributes, tagged, rfl⟩ := map_eq_ok.mp he
      split at hc
      · next empty =>
        obtain ⟨k, f, rfl, read⟩ := Assembler.completes_empty.mp hc
        exact .feature (beq_iff_eq.mp empty) known tagged read
      · exact absurd hc Assembler.not_completes_start
  · intro h
    cases h with
    | other closed unknown =>
      rw [unknown]
      exact ⟨_, rfl, Assembler.completes_nil.mpr closed⟩
    | @feature _ k attributes f empty known tagged read =>
      rw [known]
      refine ⟨_, map_eq_ok.mpr ⟨attributes, tagged, rfl⟩, ?_⟩
      rw [empty]
      exact Assembler.completes_empty.mpr ⟨k, f, rfl, read⟩

theorem overlooked_iff :
    (∃ e, effect names part = .ok e ∧ e.fault = none ∧ a.Completes e.events) ↔
      Overlooked a names part := by
  cases part with
  | passed =>
    constructor
    · rintro ⟨e, he, -, hc⟩
      cases he
      exact .passed (Assembler.completes_nil.mp hc)
    · rintro ⟨closed⟩
      exact ⟨_, rfl, rfl, Assembler.completes_nil.mpr closed⟩
  | closes content =>
    rw [← overlooked_closes_iff]
    constructor
    · rintro ⟨e, he, h⟩
      change (closeTag names content).mapError _ = _ at he
      cases hc : closeTag names content with
      | error f => rw [hc] at he; cases he
      | ok e' => rw [hc] at he; cases he; exact ⟨e, rfl, h⟩
    · rintro ⟨e, he, h⟩
      refine ⟨e, ?_, h⟩
      change (closeTag names content).mapError _ = _
      rw [he]
      rfl
  | opens content =>
    rw [← overlooked_opens_iff]
    constructor
    · rintro ⟨e, he, h⟩
      cases he
      exact h
    · intro h
      exact ⟨_, rfl, h⟩

end Markup

/-! ## Documents -/

theorem takeAll_congr {items items' : List Item} (a : Assembler)
    (h : items.map Item.what = items'.map Item.what) : a.takeAll items = a.takeAll items' := by
  induction items generalizing a items' with
  | nil => rw [List.map_nil, eq_comm, List.map_eq_nil_iff] at h; rw [h]
  | cons i items ih =>
    cases items' with
    | nil => cases h
    | cons i' items' =>
      obtain ⟨hi, h⟩ := List.cons.inj h
      unfold Assembler.takeAll
      rw [hi]
      split
      · rfl
      · split
        · rfl
        · rw [ih _ h]

theorem takeAll_start {before after : List Item} {a b : Assembler} {R : List Placed}
    (h : a.takeAll (before ++ after) = .ok (b, R)) : ∃ c S, a.takeAll before = .ok (c, S) := by
  induction before generalizing a R with
  | nil => exact ⟨a, [], rfl⟩
  | cons i before ih =>
    obtain ⟨e, s, S, hi, hs, hr, -⟩ := Assembler.takeAll_cons_eq_ok h
    obtain ⟨c, T, hT⟩ := ih hr
    exact ⟨c, s.rows ++ T, by rw [Assembler.takeAll_cons hi hs, hT]; rfl⟩

theorem takeAll_events {a b : Assembler} {R : List Placed} {events : List Event}
    (position drawn : Nat) :
    a.takeAll (events.map fun e => ⟨.ok e, position, drawn⟩) = .ok (b, R) ↔
      a.run events = .ok (b, R) := by
  induction events generalizing a R with
  | nil =>
    constructor
    · intro h
      cases h
      rfl
    · intro h
      cases h
      rfl
  | cons e events ih =>
    rw [Assembler.run_cons_eq_ok, List.map_cons]
    constructor
    · intro h
      obtain ⟨_, s, S, he, hs, hr, rfl⟩ := Assembler.takeAll_cons_eq_ok h
      cases he
      exact ⟨s, S, hs, ih.mp hr, rfl⟩
    · rintro ⟨s, S, hs, hr, rfl⟩
      rw [Assembler.takeAll_cons rfl hs, ih.mpr hr]
      rfl

open Markup

theorem takeAll_effect {a : Assembler} {e : Effect} (position drawn : Nat) :
    (∃ b R, a.takeAll (e.items position drawn) = .ok (b, R) ∧ b.openFeature = none) ↔
      e.fault = none ∧ a.Completes e.events := by
  unfold Effect.items
  cases hf : e.fault with
  | some fault =>
    constructor
    · rintro ⟨b, R, h, -⟩
      cases h
    · rintro ⟨h, -⟩
      cases h
  | none =>
    constructor
    · rintro ⟨b, R, h, hb⟩
      exact ⟨rfl, b, R, (takeAll_events position drawn).mp h, hb⟩
    · rintro ⟨-, b, R, h, hb⟩
      exact ⟨b, R, (takeAll_events position drawn).mpr h, hb⟩

theorem exists_assembled_iff {items : List Item} : (∃ r, assembled items = .ok r) ↔
    ∃ b R, ({} : Assembler).takeAll items = .ok (b, R) ∧ b.openFeature = none := by
  constructor
  · rintro ⟨⟨counts, R⟩, h⟩
    obtain ⟨b, ht, hb, -⟩ := assembled_eq_ok.mp h
    exact ⟨b, R, ht, hb⟩
  · rintro ⟨b, R, ht, hb⟩
    exact ⟨(b.counts, R), assembled_eq_ok.mpr ⟨b, ht, hb, rfl⟩⟩

/-- A document comes to rows just if what follows its last complete construct goes unnoticed. -/
theorem assembled_leftover {c : Cursor} {a : Assembler} {R : List Placed} (h : c.next? = none)
    (ht : ({} : Assembler).takeAll c.done.toList = .ok (a, R)) :
    (∃ r, assembled (c.read none).items = .ok r) ↔
      ∃ part, Unended c.body part ∧ Overlooked a c.openNames part := by
  rw [exists_assembled_iff]
  rcases Cursor.read_leftover h with ⟨part, e, position, drawn, hu, he, hr⟩ | ⟨hno, f, position, hr⟩
  · rw [hr, Assembler.takeAll_append ht]
    constructor
    · rintro ⟨b, S, hS, hb⟩
      obtain ⟨⟨b', S'⟩, hb', hbS⟩ := map_eq_ok.mp hS
      cases hbS
      have hc := (takeAll_effect position drawn).mp ⟨b', S', hb', hb⟩
      exact ⟨part, hu, overlooked_iff.mp ⟨e, he, hc⟩⟩
    · rintro ⟨part', hu', ho⟩
      cases hu.unique hu'
      obtain ⟨e', he', hc⟩ := overlooked_iff.mpr ho
      cases he.symm.trans he'
      obtain ⟨b, S, h, hb⟩ := (takeAll_effect position drawn).mpr hc
      exact ⟨b, R ++ S, by rw [h]; rfl, hb⟩
  · rw [hr, Assembler.takeAll_of_unreadable ht rfl]
    constructor
    · rintro ⟨b, S, h, -⟩
      cases h
    · rintro ⟨part, hu, ho⟩
      obtain ⟨e, he, -⟩ := overlooked_iff.mpr ho
      exact absurd he (hno part e hu)

end MapTables
