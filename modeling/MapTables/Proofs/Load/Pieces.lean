import MapTables.Proofs.Input.Octets
import MapTables.Proofs.Load.Beside
import MapTables.Proofs.Markup.Divided
import MapTables.Store.Memory

/-!
# Inputs in pieces

A load goes by the octets of its input, not by the pieces they come in, but for two things: the
first piece alone tells the encoding, and a document type is misread if a piece ends at an open
declaration in it.
-/

namespace MapTables

open Markup

/-! ## Documents -/

namespace Input

variable {i i' : Input} {label : Option String}

/-- In UTF-8 a piece ends at an open declaration of a document type. -/
def MeetsDivided (i : Input) (label : Option String) : Prop :=
  ∃ e d, i.delivery.toUtf8 i.codecs label = .ok (e, d) ∧ (Cursor.ofDelivery d).MeetsDivided

theorem items_of_same_octets {d d' : Delivery} (hu : d.failure = none) (hu' : d'.failure = none)
    (htext : (dropMark (d.pieces.map Piece.octets)).flatten =
      (dropMark (d'.pieces.map Piece.octets)).flatten)
    (hd : ¬ (Cursor.ofDelivery d).MeetsDivided) (hd' : ¬ (Cursor.ofDelivery d').MeetsDivided) :
    List.Forall₂ (Load.Item.Alike fun _ _ => True)
      (Transcript.ofDelivery d).items (Transcript.ofDelivery d').items := by
  rw [items_ofDelivery fun _ => hu, items_ofDelivery fun _ => hu', hu, hu']
  have hread := (beside_ofDelivery htext.symm).read hd hd'
  rw [← List.forall₂_eq_eq_eq, List.forall₂_map_left_iff, List.forall₂_map_right_iff] at hread
  exact hread.flip.imp fun _ _ hw => ⟨hw, trivial⟩

theorem alike_of_sameText (h : i.delivery.SameText label i'.delivery)
    (foreign : i'.codecs.foreign = i.codecs.foreign) (hi : ¬ i.MeetsDivided label)
    (hi' : ¬ i'.MeetsDivided label) :
    i.Alike (fun _ _ => True) label i' := by
  unfold Alike items
  rcases h.toUtf8 foreign with ⟨f, hf, hf'⟩ | ⟨e, d, d', hd, hd', hu, hu', htext⟩
  · left
    rw [hf, hf']
    exact ⟨f, rfl, rfl⟩
  · right
    rw [hd, hd']
    refine ⟨_, _, rfl, rfl, items_of_same_octets hu hu' htext (fun hm => hi ⟨e, d, hd, hm⟩) ?_⟩
    exact fun hm => hi' ⟨e, d', hd', hm⟩

theorem not_meetsDivided
    (h : ∀ r, i.delivery.toUtf8 i.codecs label = .ok r → ¬ NamesDoctype (Cursor.ofDelivery r.2).rest) :
    ¬ i.MeetsDivided label := by
  rintro ⟨e, d, hd, hm⟩
  exact Cursor.not_meetsDivided (h (e, d) hd) hm

def inPieces (bytes : Bytes) (size : Nat) : Input := { delivery := .ofBytes bytes size none }

end Input

/-! ## Watchers -/

/-- Watchers that go on alike, whatever percentages each of them is told. -/
structure Heedless {ω : Type} [Watcher ω] (R : ω → ω → Prop) : Prop where
  refl : ∀ w, R w w
  poll : ∀ w w', R w w' →
    (Watcher.poll w').1 = (Watcher.poll w).1 ∧ R (Watcher.poll w).2 (Watcher.poll w').2
  report : ∀ w w' p, R w w' → R (Watcher.report w p).1 w'
  report' : ∀ w w' p, R w w' → R w (Watcher.report w' p).1

theorem heedless_unwatched : Heedless fun _ _ : Unwatched => True :=
  ⟨fun _ => trivial, fun _ _ _ => ⟨rfl, trivial⟩, fun _ _ _ _ => trivial, fun _ _ _ _ => trivial⟩

theorem Announcer.cancelled_report (w : Announcer) (p : Nat) :
    (w.report p).1.cancelled = w.cancelled := by
  unfold report
  split <;> rfl

theorem heedless_announcer : Heedless fun w w' : Announcer => w'.cancelled = w.cancelled where
  refl _ := rfl
  poll _ _ h := ⟨h, h⟩
  report w _ p h := h.trans (w.cancelled_report p).symm
  report' _ w' p h := (w'.cancelled_report p).trans h

section Watchers

variable {ω : Type} [Watcher ω] {R : ω → ω → Prop}

theorem Monitor.watcher_featureClosed (m : Monitor) (gauge : Gauge) (drawn : Nat) (w : ω) :
    (m.featureClosed gauge drawn w).watcher = w ∨
      ∃ p, (m.featureClosed gauge drawn w).watcher = (Watcher.report w p).1 := by
  unfold featureClosed
  simp only
  split
  · split
    · exact Or.inl rfl
    · split
      · exact Or.inl rfl
      · next p _ => exact Or.inr ⟨p, rfl⟩
  · exact Or.inl rfl

theorem Monitor.watcher_finish (m : Monitor) (w : ω) :
    (m.finish w).1 = w ∨ ∃ p, (m.finish w).1 = (Watcher.report w p).1 := by
  unfold finish
  split
  · exact Or.inl rfl
  · exact Or.inr ⟨100, rfl⟩

namespace Heedless

theorem told (h : Heedless R) {w w' v v' : ω} (hw : R w w')
    (hv : v = w ∨ ∃ p, v = (Watcher.report w p).1)
    (hv' : v' = w' ∨ ∃ p, v' = (Watcher.report w' p).1) : R v v' := by
  have left : R v w' := by
    rcases hv with rfl | ⟨p, rfl⟩
    · exact hw
    · exact h.report w w' p hw
  rcases hv' with rfl | ⟨p, rfl⟩
  · exact left
  · exact h.report' v w' p left

def unison (h : Heedless R) (gauge gauge' : Gauge) : Unison ω ω gauge gauge' fun _ _ => True where
  agree _ w _ w' := R w w'
  partner m w := ⟨m, w, h.refl w⟩
  poll _ w _ w' hw := h.poll w w' hw
  count m w m' w' _ _ _ hw :=
    h.told hw (m.watcher_featureClosed _ _ w) (m'.watcher_featureClosed _ _ w')
  finish m w m' w' hw := h.told hw (m.watcher_finish w) (m'.watcher_finish w')

end Heedless

end Watchers

/-! ## Loads -/

/-- Where the encoding is told alike and no document type is divided, a load comes to the same for
all pieces of the same octets, and so does its store. -/
theorem load_of_same_text {σ ω : Type} [Store σ] [Watcher ω] {i i' : Input} {options : Options}
    (same : i.delivery.SameText options.encoding i'.delivery)
    (foreign : i'.codecs.foreign = i.codecs.foreign)
    (undivided : ¬ i.MeetsDivided options.encoding)
    (undivided' : ¬ i'.MeetsDivided options.encoding) {R : ω → ω → Prop} (heedless : Heedless R)
    {w w' : ω} (hw : R w w') (s : σ) (base : String) :
    let x := load i s base w options
    let y := load i' s base w' options
    y.result = x.result ∧ y.counts = x.counts ∧ y.store = x.store := by
  obtain ⟨hs, hself⟩ := load_answered i s s base w options
  obtain ⟨likeSelf, hself⟩ := hself _ hs
  have hpieces := Input.alike_of_sameText same foreign undivided undivided'
  obtain ⟨likeOther, hother⟩ :=
    (load_beside (heedless.unison i.gauge i'.gauge) hpieces hw s s base _ rfl).2 _ hs
  exact ⟨likeOther.result.trans likeSelf.result.symm, likeOther.counts.trans likeSelf.counts.symm,
    hother.trans hself.symm⟩

theorem load_of_same_text_of_marked_pieces :
    let text := [0xFF, 0xFE] ++ (Bytes.ofString "<way id=\"1\"/>").flatMap fun b => [b, 0]
    let x := load (.inPieces text 8192) ({} : Memory) "city" ({} : Announcer) {}
    let y := load (.inPieces text 5) ({} : Memory) "city" ({ last := some 7 } : Announcer) {}
    x.store.rows "city_way" = #[.way { id := 1 }] ∧
      y.result = x.result ∧ y.counts = x.counts ∧ y.store = x.store := by
  intro text x y
  have same : (Input.inPieces text 8192).delivery.SameText none (Input.inPieces text 5).delivery :=
    .of_front [0xFF, 0xFE] (by decide +kernel) rfl rfl (by decide +kernel)
      (by decide +kernel) (Or.inl rfl)
  have undivided (size : Nat) (h : ((Input.inPieces text size).delivery.toUtf8 {} none).toOption.all
      fun r => !decide (NamesDoctype (Cursor.ofDelivery r.2).rest)) :
      ¬ (Input.inPieces text size).MeetsDivided none := by
    refine Input.not_meetsDivided fun r hr => ?_
    have hdelivered : (Input.inPieces text size).delivery.toUtf8 {} none = .ok r := hr
    rw [hdelivered] at h
    simpa [Except.toOption] using h
  have foreign : (Input.inPieces text 5).codecs.foreign =
    (Input.inPieces text 8192).codecs.foreign := rfl
  have uncancelled : ({ last := some 7 } : Announcer).cancelled = ({} : Announcer).cancelled := rfl
  exact ⟨by decide +kernel,
    load_of_same_text same foreign (undivided 8192 (by decide +kernel))
      (undivided 5 (by decide +kernel))
      heedless_announcer uncancelled ({} : Memory) "city"⟩

/-- A mark that the first piece does not have all of goes unseen, and all features with it. -/
theorem load_of_divided_mark :
    let text := [0xFF, 0xFE] ++ (Bytes.ofString "<way id=\"1\"/>").flatMap fun b => [b, 0]
    let whole := Input.inPieces text 8192
    let parted := Input.inPieces text 1
    parted.delivery.octets = whole.delivery.octets ∧
      (∀ p ∈ whole.delivery.pieces ++ parted.delivery.pieces, p.octets ≠ []) ∧
      (load whole ({} : Memory) "city" Unwatched.mk {}).counts.ways = 1 ∧
      (load parted ({} : Memory) "city" Unwatched.mk {}).counts.ways = 0 ∧
      (∃ report, (load whole ({} : Memory) "city" Unwatched.mk {}).result = .ok report) ∧
      ∃ report, (load parted ({} : Memory) "city" Unwatched.mk {}).result = .ok report := by
  intro text whole parted
  exact ⟨by decide +kernel, by decide +kernel, by decide +kernel, by decide +kernel,
    exists_ok_of_isSome (by decide +kernel), exists_ok_of_isSome (by decide +kernel)⟩

end MapTables
