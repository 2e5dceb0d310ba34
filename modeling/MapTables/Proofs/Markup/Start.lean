import MapTables.Proofs.Input.Forks
import MapTables.Proofs.Markup.Reading

/-!
# Readers at the start

The reader of a delivery that is cut short and that of the whole start alike: with the same
octets, in the same pieces, up to where the first ends.
-/

namespace MapTables.Markup

def Cursor.ofDelivery (d : Delivery) : Cursor :=
  { rest := (Source.ofDelivery d).octets, ends := (Source.ofDelivery d).ends }

theorem items_ofDelivery {d : Delivery} (h : d.pieces = [] → d.failure = none) :
    (Transcript.ofDelivery d).items = ((Cursor.ofDelivery d).read d.failure).items := by
  unfold Transcript.ofDelivery
  split
  · next hp hf => rw [h hp] at hf; cases hf
  · rfl

/-! ## Octets and ends of pieces -/

/-- Pieces without a mark at the start of the first one. -/
def dropMark : List Bytes → List Bytes
  | [] => []
  | p :: ps => (if utf8Mark.isPrefixOf p then p.drop 3 else p) :: ps

/-- Where pieces end that follow so many octets. -/
def stops (offset : Nat) : List Bytes → List Nat
  | [] => []
  | p :: ps => (offset + p.length) :: stops (offset + p.length) ps

theorem octets_withoutMark (ps : List Piece) :
    (withoutMark ps).map Piece.octets = dropMark (ps.map Piece.octets) := by
  cases ps with
  | nil => rfl
  | cons p ps =>
    rw [withoutMark, List.map_cons, List.map_cons, dropMark]
    split <;> rfl

theorem rest_ofDelivery (d : Delivery) :
    (Cursor.ofDelivery d).rest = (dropMark (d.pieces.map Piece.octets)).flatten := by
  rw [← octets_withoutMark, ← List.flatMap_def]
  rfl

theorem endsFrom_fst (offset : Nat) (ps : List Piece) :
    (endsFrom offset ps).map Prod.fst = stops offset (ps.map Piece.octets) := by
  induction ps generalizing offset with
  | nil => rfl
  | cons p ps ih => rw [endsFrom, List.map_cons, List.map_cons, stops, ih]

theorem stops_agree {bound offset : Nat} {shared P W : List Bytes}
    (hp : ∀ p ∈ P.head?, bound ≤ offset + shared.flatten.length + p.length)
    (hw : ∀ w ∈ W.head?, bound ≤ offset + shared.flatten.length + w.length) :
    EndsAgree bound (stops offset (shared ++ P)) (stops offset (shared ++ W)) := by
  induction shared generalizing offset with
  | nil =>
    have none {L : List Bytes} (h : ∀ p ∈ L.head?, bound ≤ offset + ([] : List Bytes).flatten.length + p.length) :
        (stops offset L).takeWhile (· < bound) = [] := by
      cases L with
      | nil => rfl
      | cons p L =>
        have := h p rfl
        rw [stops, List.takeWhile_cons, if_neg]
        simp at this ⊢
        exact this
    exact (none hp).trans (none hw).symm
  | cons s shared ih =>
    have hs : offset + (s :: shared).flatten.length = offset + s.length + shared.flatten.length := by
      simp [Nat.add_assoc]
    rw [hs] at hp hw
    unfold EndsAgree
    rw [List.cons_append, List.cons_append, stops, stops, List.takeWhile_cons, List.takeWhile_cons,
      ih hp hw]

/-! ## Pieces that part -/

theorem dropMark_of_not {p : Bytes} (h : ¬ utf8Mark <+: p) (ps : List Bytes) :
    dropMark (p :: ps) = p :: ps := by
  rw [dropMark, if_neg]
  rwa [List.isPrefixOf_iff_prefix]

theorem dropMark_of_mark {p : Bytes} (h : utf8Mark <+: p) (ps : List Bytes) :
    dropMark (p :: ps) = p.drop 3 :: ps := by
  rw [dropMark, if_pos]
  rwa [List.isPrefixOf_iff_prefix]

theorem mem_dropMark {b : UInt8} {ps : List Bytes} (h : b ∈ (dropMark ps).flatten) :
    b ∈ ps.flatten := by
  cases ps with
  | nil => exact h
  | cons p ps =>
    rw [dropMark, List.flatten_cons, List.mem_append] at h
    rw [List.flatten_cons, List.mem_append]
    refine h.imp_left fun hb => ?_
    split at hb
    · exact List.mem_of_mem_drop hb
    · exact hb

theorem prefix_head {front : Bytes} {ps : List Bytes} (h : front <+: ps.flatten)
    (hl : ∀ p ∈ ps.head?, front.length ≤ p.length) :
    ps = [] ∨ ∃ p rest, ps = p :: rest ∧ front <+: p := by
  cases ps with
  | nil => exact Or.inl rfl
  | cons p rest =>
    refine Or.inr ⟨p, rest, rfl, ?_⟩
    exact List.prefix_of_prefix_length_le h (List.prefix_append _ _) (hl p rfl)

theorem dropMark_of_front {front more : Bytes} {ps : List Bytes} (hm : utf8Mark <+: front)
    (h : ps.flatten = front ++ more) (hl : ∀ p ∈ ps.head?, front.length ≤ p.length) :
    (dropMark ps).flatten = front.drop 3 ++ more ∧
      ∀ p ∈ (dropMark ps).head?, (front.drop 3).length ≤ p.length := by
  have hlen : 3 ≤ front.length := hm.length_le
  rcases prefix_head (h ▸ List.prefix_append _ _) hl with rfl | ⟨p, rest, rfl, back, rfl⟩
  · have := congrArg List.length h
    simp at this
    omega
  · rw [dropMark_of_mark (hm.trans (List.prefix_append _ _)), List.drop_append_of_le_length hlen]
    rw [List.flatten_cons, List.append_assoc] at h
    refine ⟨?_, fun p hp => ?_⟩
    · rw [List.flatten_cons, List.append_assoc, List.append_cancel_left h]
    · simp only [List.head?_cons, Option.mem_some_iff] at hp
      rw [← hp, List.length_append]
      exact Nat.le_add_right _ _

theorem dropMark_of_other {front : Bytes} {ps : List Bytes} (hm : ¬ utf8Mark <+: front)
    (hf : ¬ front <+: utf8Mark) (h : front <+: ps.flatten)
    (hl : ∀ p ∈ ps.head?, front.length ≤ p.length) : dropMark ps = ps := by
  rcases prefix_head h hl with rfl | ⟨p, rest, rfl, hp⟩
  · rfl
  · refine dropMark_of_not (fun hmark => ?_) rest
    exact (List.prefix_or_prefix_of_prefix hp hmark).elim hf hm

theorem forks_dropMark {tail : Bytes} {part whole : List Bytes} (h : Forks tail part whole)
    (ht : 0x3E ∉ tail) : ∃ tail', 0x3E ∉ tail' ∧ Forks tail' (dropMark part) (dropMark whole) := by
  obtain ⟨shared, front, P, W, rfl, rfl, hP, hW, hp, hw⟩ := h
  cases shared with
  | cons s shared => exact ⟨tail, ht, _ :: shared, front, P, W, rfl, rfl, hP, hW, hp, hw⟩
  | nil =>
    rw [List.nil_append, List.nil_append]
    by_cases hm : utf8Mark <+: front
    · obtain ⟨more, hmore⟩ := hW
      obtain ⟨hP', hp'⟩ := dropMark_of_front hm hP hp
      obtain ⟨hW', hw'⟩ := dropMark_of_front hm hmore.symm hw
      exact ⟨tail, ht, [], front.drop 3, _, _, rfl, rfl, hP', hW' ▸ List.prefix_append _ _, hp', hw'⟩
    by_cases hf : front <+: utf8Mark
    · -- The part ends within the mark of the whole.
      refine ⟨_, fun hmem => ?_, .of_tail _ _⟩
      have hmem := mem_dropMark hmem
      rw [hP, List.mem_append] at hmem
      rcases hmem with hmem | hmem
      · exact absurd (hf.subset hmem) (by decide)
      · exact ht hmem
    · rw [dropMark_of_other hm hf (hP ▸ List.prefix_append _ _) hp, dropMark_of_other hm hf hW hw]
      exact ⟨tail, ht, [], front, P, W, rfl, rfl, hP, hW, hp, hw⟩

theorem alike_ofDelivery {part whole : Delivery} {tail : Bytes} (ht : 0x3E ∉ tail)
    (h : Forks tail (part.pieces.map Piece.octets) (whole.pieces.map Piece.octets)) :
    ∃ tail' more, 0x3E ∉ tail' ∧
      Cursor.Alike tail' more (.ofDelivery part) (.ofDelivery whole) := by
  obtain ⟨tail', ht', hforks⟩ := forks_dropMark h ht
  rw [← octets_withoutMark, ← octets_withoutMark] at hforks
  obtain ⟨shared, front, P, W, hpart, hwhole, hP, ⟨more, hW⟩, hp, hw⟩ := hforks
  refine ⟨tail', more, ht', rfl, rfl, rfl, shared.flatten ++ front, ?_, ?_, ?_⟩
  · change (withoutMark part.pieces).flatMap Piece.octets = _
    rw [List.flatMap_def, hpart, List.flatten_append, hP, List.append_assoc]
  · change (withoutMark whole.pieces).flatMap Piece.octets = _
    rw [List.flatMap_def, hwhole, List.flatten_append, ← hW, List.append_assoc]
  · change EndsAgree _ ((endsFrom 0 (withoutMark part.pieces)).map Prod.fst)
      ((endsFrom 0 (withoutMark whole.pieces)).map Prod.fst)
    rw [endsFrom_fst, endsFrom_fst, hpart, hwhole]
    change EndsAgree (0 + (shared.flatten ++ front).length) _ _
    rw [List.length_append, ← Nat.add_assoc]
    refine stops_agree (fun p h => ?_) (fun w h => ?_)
    · exact Nat.add_le_add_left (hp p h) _
    · exact Nat.add_le_add_left (hw w h) _

end MapTables.Markup
