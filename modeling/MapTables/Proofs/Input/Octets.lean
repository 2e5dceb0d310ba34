import MapTables.Proofs.Input.Forks
import MapTables.Proofs.Markup.Start

/-!
# Deliveries of the same octets

In UTF-8 a delivery comes to octets that do not depend on its pieces, once its encoding is
settled. Decoded pieces end between characters, so that a mark is in the first one or nowhere.
-/

namespace MapTables

/-! ## Heads -/

theorem splitHead_octets (n drawn : Nat) (ps : List Piece) :
    (Delivery.splitHead n drawn ps).1 = (ps.flatMap Piece.octets).take n ∧
      (Delivery.splitHead n drawn ps).2.2.flatMap Piece.octets =
        (ps.flatMap Piece.octets).drop n := by
  induction ps generalizing n drawn with
  | nil => simp [Delivery.splitHead]
  | cons p ps ih =>
    unfold Delivery.splitHead
    rw [List.flatMap_cons, List.take_append, List.drop_append]
    split
    · next h =>
      obtain ⟨hhead, hrest⟩ := ih (n - p.octets.length) p.drawn
      have hle : p.octets.length ≤ n := by omega
      simp only [hhead, hrest, List.take_of_length_le hle, List.drop_of_length_le hle,
        List.nil_append, and_self]
    · next h =>
      have hzero : n - p.octets.length = 0 := by omega
      simp [hzero]

/-! ## Decoded texts -/

namespace Decoder

variable {codecs : Codecs} {d : Decoder} {ps : List Bytes} {t : List Char}

theorem text_eq (d : Decoder) (bytes : Bytes) :
    d.text bytes = (d.run bytes).2.toList ++ (d.run bytes).1.finish := rfl

/-- The chunks that pieces come to, with what is left at the end. -/
def wholeTexts (codecs : Codecs) (d : Decoder) (ps : List Bytes) : List (List Char) :=
  d.texts codecs ps ++ (Filling.ofFinish codecs (d.run ps.flatten).1).parts

theorem ne_nil_of_mem_wholeTexts (h : t ∈ d.wholeTexts codecs ps) : t ≠ [] :=
  (List.mem_append.mp h).elim ne_nil_of_mem_texts Filling.ne_nil_of_mem_ofFinish

theorem flatten_wholeTexts (codecs : Codecs) (d : Decoder) (ps : List Bytes) :
    (d.wholeTexts codecs ps).flatten = d.text ps.flatten := by
  rw [wholeTexts, List.flatten_append, flatten_texts, Filling.flatten_ofFinish, text_eq]

end Decoder

/-- The characters of octets in an encoding, which a mark in front overrides unless it is fixed. -/
def textOf (foreign : Encoding → Foreign) (e : Encoding) (fixed : Bool) (bytes : Bytes) :
    List Char :=
  let head := bytes.take Delivery.markLength
  let e := markedOr e fixed head
  (Decoder.ofEncoding foreign e).text
    (Delivery.withoutMark e head ++ bytes.drop Delivery.markLength)

theorem pieces_of_transcode {d : Delivery} (unbroken : d.failure = none) {head : Bytes} {drawn : Nat}
    {rest : List Piece}
    (hs : Delivery.splitHead Delivery.markLength 0 d.pieces = (head, drawn, rest))
    (codecs : Codecs) (e : Encoding) (fixed : Bool) :
    (d.transcode codecs e fixed).pieces.map Piece.octets =
      ((Decoder.ofEncoding codecs.foreign (markedOr e fixed head)).wholeTexts codecs
        (Delivery.withoutMark (markedOr e fixed head) head :: rest.map Piece.octets)).map
          Bytes.ofChars := by
  have h := octets_transcode hs (by simp [unbroken]) codecs e fixed
  simp only [unbroken, Option.isSome_none, Bool.false_eq_true, if_false] at h
  exact h

/-- Decoded pieces are never empty and never larger than a buffer. -/
theorem piece_of_transcode {codecs : Codecs} {d : Delivery} {e : Encoding} {fixed : Bool} {p : Piece}
    (h : p ∈ (d.transcode codecs e fixed).pieces) :
    p.octets ≠ [] ∧ p.octets.length ≤ blockSize := by
  rcases hs : Delivery.splitHead Delivery.markLength 0 d.pieces with ⟨head, drawn, rest⟩
  by_cases hf : head.length < Delivery.markLength ∧ d.failure.isSome
  · have hnone : (d.transcode codecs e fixed).pieces = [] := by
      unfold Delivery.transcode
      rw [hs]
      simp only
      rw [if_pos hf]
    rw [hnone] at h
    cases h
  · have hp := List.mem_map_of_mem h (f := Piece.octets)
    rw [octets_transcode hs hf] at hp
    obtain ⟨t, ht, hpt⟩ := List.mem_map.mp hp
    have sound : t ≠ [] ∧ (Bytes.ofChars t).length ≤ blockSize := by
      rcases List.mem_append.mp ht with ht | ht
      · exact ⟨Decoder.ne_nil_of_mem_texts ht, Decoder.length_of_mem_texts ht⟩
      · split at ht
        · cases ht
        · exact ⟨Filling.ne_nil_of_mem_ofFinish ht, Filling.length_of_mem_parts ht⟩
    rw [← hpt]
    exact ⟨fun hnil => sound.1 (ofChars_eq_nil (congrArg List.length hnil)), sound.2⟩

theorem texts_of_transcode {d : Delivery} (unbroken : d.failure = none) (codecs : Codecs)
    (e : Encoding) (fixed : Bool) : ∃ texts : List (List Char), (∀ t ∈ texts, t ≠ []) ∧
      (d.transcode codecs e fixed).pieces.map Piece.octets = texts.map Bytes.ofChars ∧
      texts.flatten = textOf codecs.foreign e fixed d.octets := by
  obtain ⟨hhead, hrest⟩ := splitHead_octets Delivery.markLength 0 d.pieces
  rcases hs : Delivery.splitHead Delivery.markLength 0 d.pieces with ⟨head, drawn, rest⟩
  rw [hs] at hhead hrest
  simp only at hhead hrest
  refine ⟨_, fun t ht => Decoder.ne_nil_of_mem_wholeTexts ht,
    pieces_of_transcode unbroken hs codecs e fixed, ?_⟩
  rw [Decoder.flatten_wholeTexts, List.flatten_cons, ← List.flatMap_def, hhead, hrest]
  rfl

/-! ## Marks -/

def unmarked (bytes : Bytes) : Bytes :=
  if Markup.utf8Mark.isPrefixOf bytes then bytes.drop 3 else bytes

theorem mark_of_ofChars {c : Char} {more : Bytes}
    (h : Markup.utf8Mark <+: String.utf8EncodeChar c ++ more) :
    Markup.utf8Mark <+: String.utf8EncodeChar c := by
  -- No shorter character starts with the first octet of a mark.
  suffices hl : 3 ≤ (String.utf8EncodeChar c).length from
    List.prefix_of_prefix_length_le h (List.prefix_append _ _) hl
  have hn : c.toNat = c.val.toNat := rfl
  unfold String.utf8EncodeChar at h ⊢
  simp only at h ⊢
  split
  · next hv =>
    rw [if_pos hv] at h
    have hb := congrArg UInt8.toNat (List.cons_prefix_cons.mp h).1
    simp at hb
    omega
  · next hv =>
    rw [if_neg hv] at h
    split
    · next hv' =>
      rw [if_pos hv'] at h
      have hb := congrArg UInt8.toNat (List.cons_prefix_cons.mp h).1
      simp at hb
      omega
    · split <;> simp

theorem flatten_dropMark_texts {texts : List (List Char)} (h : ∀ t ∈ texts, t ≠ []) :
    (Markup.dropMark (texts.map Bytes.ofChars)).flatten =
      unmarked (Bytes.ofChars texts.flatten) := by
  rw [ofChars_flatten]
  cases texts with
  | nil => rfl
  | cons t texts =>
    obtain ⟨c, cs, rfl⟩ := List.exists_cons_of_ne_nil (h _ List.mem_cons_self)
    have hc : Bytes.ofChars (c :: cs) = String.utf8EncodeChar c ++ Bytes.ofChars cs := rfl
    rw [List.map_cons, List.flatten_cons, unmarked]
    by_cases hm : Markup.utf8Mark <+: Bytes.ofChars (c :: cs)
    · have hl : 3 ≤ (Bytes.ofChars (c :: cs)).length := hm.length_le
      rw [Markup.dropMark_of_mark hm, if_pos, List.flatten_cons,
        List.drop_append_of_le_length hl]
      exact List.isPrefixOf_iff_prefix.mpr (hm.trans (List.prefix_append _ _))
    · rw [Markup.dropMark_of_not hm, if_neg, List.flatten_cons]
      rw [List.isPrefixOf_iff_prefix, hc, List.append_assoc]
      exact fun hm' => hm (hc ▸ (mark_of_ofChars hm').trans (List.prefix_append _ _))

/-! ## Deliveries in UTF-8 -/

namespace Delivery

/-- Two deliveries of the same octets of which the first pieces tell the same encoding. -/
structure SameText (label : Option String) (d d' : Delivery) : Prop where
  octets : d.octets = d'.octets
  unbroken : d.failure = none
  unbroken' : d'.failure = none
  encoding : d.encoding label = d'.encoding label
  /-- Where that is UTF-8 both first pieces have a mark in front, or neither. -/
  marked : d.encoding label = .ok .utf8 →
    (Encoding.ofMark? d.first).isSome = (Encoding.ofMark? d'.first).isSome

variable {label : Option String} {d d' : Delivery}

theorem encoding_of_unbroken (h : d.failure = none) (label : Option String) :
    d.encoding label = match label with
      | none => .ok (Encoding.sniff d.first)
      | some l => match Encoding.ofText? l with
        | some e => .ok e
        | none => .error (.unknownEncoding l) := by
  unfold Delivery.encoding
  rw [h]
  cases label with
  | none => cases d.pieces <;> rfl
  | some l =>
    cases hl : Encoding.ofText? l with
    | none => simp [hl, bind, Except.bind]
    | some e => cases d.pieces <;> simp [hl, bind, Except.bind, pure, Except.pure]

/-- First pieces tell the same if both start with a mark, or with a whole declaration. -/
theorem SameText.of_front (front : Bytes) (octets : d.octets = d'.octets)
    (unbroken : d.failure = none) (unbroken' : d'.failure = none) (h : front <+: d.first)
    (h' : front <+: d'.first)
    (told : (Encoding.ofMark? front).isSome ∨ (Encoding.declared? front).isSome) :
    SameText label d d' := by
  suffices hs : Encoding.sniff d.first = Encoding.sniff d'.first ∧
      (Encoding.ofMark? d.first).isSome = (Encoding.ofMark? d'.first).isSome by
    refine ⟨octets, unbroken, unbroken', ?_, fun _ => hs.2⟩
    rw [encoding_of_unbroken unbroken, encoding_of_unbroken unbroken', hs.1]
  rcases told with told | told
  · obtain ⟨e, he⟩ := Option.isSome_iff_exists.mp told
    have hm := ofMark?_of_front h he
    have hm' := ofMark?_of_front h' he
    rw [sniff_of_mark hm, sniff_of_mark hm', hm, hm']
    exact ⟨rfl, rfl⟩
  · obtain ⟨e, he⟩ := Option.isSome_iff_exists.mp told
    obtain ⟨hd, hm⟩ := declared_of_front h he
    obtain ⟨hd', hm'⟩ := declared_of_front h' he
    rw [sniff_of_declared hd, sniff_of_declared hd', hm, hm']
    exact ⟨rfl, rfl⟩

theorem SameText.of_label {l : String} {e : Encoding} (he : Encoding.ofText? l = some e)
    (hne : e ≠ .utf8) (octets : d.octets = d'.octets) (unbroken : d.failure = none)
    (unbroken' : d'.failure = none) : SameText (some l) d d' := by
  have hd := encoding_of_unbroken unbroken (some l)
  have hd' := encoding_of_unbroken unbroken' (some l)
  simp only [he] at hd hd'
  refine ⟨octets, unbroken, unbroken', hd.trans hd'.symm, fun hu => ?_⟩
  exact absurd (Except.ok.inj (hd.symm.trans hu)) hne

theorem dropMark_of_unmarked (h : Encoding.ofMark? d.first = none) :
    Markup.dropMark (d.pieces.map Piece.octets) = d.pieces.map Piece.octets := by
  rw [first_eq] at h
  cases hp : d.pieces.map Piece.octets with
  | nil => rfl
  | cons p ps =>
    rw [hp] at h
    refine Markup.dropMark_of_not (fun hm => ?_) ps
    have hmark : Encoding.ofMark? p = some .utf8 := ofMark?_of_front hm rfl
    cases h.symm.trans hmark

theorem SameText.toUtf8 (h : SameText label d d') {codecs codecs' : Codecs}
    (foreign : codecs'.foreign = codecs.foreign) :
    (∃ f, d.toUtf8 codecs label = .error f ∧ d'.toUtf8 codecs' label = .error f) ∨
      ∃ e p p', d.toUtf8 codecs label = .ok (e, p) ∧ d'.toUtf8 codecs' label = .ok (e, p') ∧
        p.failure = none ∧ p'.failure = none ∧
        (Markup.dropMark (p.pieces.map Piece.octets)).flatten =
          (Markup.dropMark (p'.pieces.map Piece.octets)).flatten := by
  have hmarked := h.marked
  unfold Delivery.toUtf8
  rw [← h.encoding]
  cases he : d.encoding label with
  | error f => exact Or.inl ⟨f, rfl, rfl⟩
  | ok e =>
    rw [he] at hmarked
    right
    have transcoded :
        (Markup.dropMark ((d.transcode codecs e label.isSome).pieces.map
          Piece.octets)).flatten =
        (Markup.dropMark ((d'.transcode codecs' e label.isSome).pieces.map Piece.octets)).flatten := by
      obtain ⟨texts, hne, hpieces, htext⟩ := texts_of_transcode h.unbroken codecs e label.isSome
      obtain ⟨texts', hne', hpieces', htext'⟩ := texts_of_transcode h.unbroken' codecs' e label.isSome
      rw [hpieces, hpieces', flatten_dropMark_texts hne, flatten_dropMark_texts hne', htext, htext',
        h.octets, foreign]
    have failure (codecs : Codecs) (d : Delivery) (hd : d.failure = none) :
        (d.transcode codecs e label.isSome).failure = none := (failure_transcode _ _ _ _).trans hd
    simp only [bind, Except.bind, pure, Except.pure]
    by_cases hu : e = .utf8
    · subst hu
      have hmarked := hmarked rfl
      cases hm : Encoding.ofMark? d.first with
      | some m =>
        cases hm' : Encoding.ofMark? d'.first with
        | some m' =>
          exact ⟨_, _, _, rfl, rfl, failure _ d h.unbroken, failure _ d' h.unbroken', transcoded⟩
        | none =>
          rw [hm, hm'] at hmarked
          cases hmarked
      | none =>
        cases hm' : Encoding.ofMark? d'.first with
        | some m' =>
          rw [hm, hm'] at hmarked
          cases hmarked
        | none =>
          refine ⟨_, d, d', rfl, rfl, h.unbroken, h.unbroken', ?_⟩
          rw [dropMark_of_unmarked hm, dropMark_of_unmarked hm', ← List.flatMap_def,
            ← List.flatMap_def]
          exact h.octets
    · rw [if_neg fun hc => hu hc.1, if_neg fun hc => hu hc.1]
      exact ⟨_, _, _, rfl, rfl, failure _ d h.unbroken, failure _ d' h.unbroken', transcoded⟩

end Delivery
end MapTables
