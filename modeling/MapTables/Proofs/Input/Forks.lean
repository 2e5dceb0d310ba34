import MapTables.Proofs.Input.Chunks

/-!
# Where deliveries part

What is cut short comes in UTF-8 in the same pieces as the whole, up to where it ends. It
may end with a few octets of its own, which hold no markup.
-/

namespace MapTables

/-- Pieces that are the same up to where the first ones have only `tail` left. -/
def Forks (tail : Bytes) (part whole : List Bytes) : Prop :=
  ∃ shared front P W, part = shared ++ P ∧ whole = shared ++ W ∧ P.flatten = front ++ tail ∧
    front <+: W.flatten ∧ (∀ p ∈ P.head?, front.length ≤ p.length) ∧
    ∀ w ∈ W.head?, front.length ≤ w.length

namespace Forks

variable {tail : Bytes} {part whole : List Bytes}

theorem of_tail (part whole : List Bytes) : Forks part.flatten part whole :=
  ⟨[], [], part, whole, rfl, rfl, rfl, List.nil_prefix, by simp, by simp⟩

theorem nil (whole : List Bytes) : Forks [] [] whole := of_tail [] whole

theorem within (front back : Bytes) (whole : List Bytes) :
    Forks [] [front] ((front ++ back) :: whole) := by
  refine ⟨[], front, _, _, rfl, rfl, by simp, ?_, by simp, by simp⟩
  rw [List.flatten_cons, List.append_assoc]
  exact List.prefix_append _ _

theorem append_left (shared : List Bytes) (h : Forks tail part whole) :
    Forks tail (shared ++ part) (shared ++ whole) := by
  obtain ⟨shared', front, P, W, rfl, rfl, hP, hW, hp, hw⟩ := h
  refine ⟨shared ++ shared', front, P, W, ?_, ?_, hP, hW, hp, hw⟩ <;> rw [List.append_assoc]

theorem append_whole (h : Forks tail part whole) (more : List Bytes) :
    Forks tail part (whole ++ more) := by
  obtain ⟨shared, front, P, W, rfl, rfl, hP, hW, hp, hw⟩ := h
  refine ⟨shared, front, P, W ++ more, rfl, by rw [List.append_assoc], hP, ?_, hp, ?_⟩
  · rw [List.flatten_append]
    exact hW.trans (List.prefix_append _ _)
  · cases W with
    | nil =>
      have : front = [] := List.prefix_nil.mp hW
      simp [this]
    | cons w W => exact hw

theorem concat_part (h : Forks [] part whole) (tail : Bytes) : Forks tail (part ++ [tail]) whole := by
  obtain ⟨shared, front, P, W, rfl, rfl, hP, hW, hp, hw⟩ := h
  refine ⟨shared, front, P ++ [tail], W, by rw [List.append_assoc], rfl, ?_, hW, ?_, hw⟩
  · rw [List.flatten_append, hP]
    simp
  · cases P with
    | nil =>
      have : front = [] := by simpa using hP.symm
      simp [this]
    | cons p P => exact hp

end Forks

theorem CutOf.forks {part whole : List Bytes} (h : CutOf part whole) : Forks [] part whole := by
  induction h with
  | between whole => exact .nil whole
  | within front back whole => exact .within front back whole
  | behind piece _ ih => exact ih.append_left [piece]

theorem CutOf.forks_texts {part whole : List Bytes} (h : CutOf part whole) (codecs : Codecs)
    (d : Decoder) :
    Forks [] ((d.texts codecs part).map Bytes.ofChars) ((d.texts codecs whole).map Bytes.ofChars) := by
  induction h generalizing d with
  | between whole => exact .nil _
  | within front back whole =>
    rw [Decoder.texts, Decoder.texts, Decoder.texts, List.append_nil]
    exact (((Filling.cutOf_readAll codecs d front back).append_right _).map ofChars_append).forks
  | behind piece _ ih =>
    rw [Decoder.texts, Decoder.texts, List.map_append, List.map_append]
    exact (ih _).append_left _

/-! ## The first octets -/

theorem CutOf.of_cons {p : Bytes} {part whole : List Bytes} (h : CutOf (p :: part) whole) :
    ∃ w rest, whole = w :: rest ∧ ((part = [] ∧ p <+: w) ∨ (p = w ∧ CutOf part rest)) := by
  cases h with
  | within _ back whole =>
    exact ⟨p ++ back, whole, rfl, Or.inl ⟨rfl, List.prefix_append _ _⟩⟩
  | @behind _ _ whole rest => exact ⟨p, whole, rfl, Or.inr ⟨rfl, rest⟩⟩

theorem CutOf.of_front {p w : Bytes} (h : p <+: w) (whole : List Bytes) :
    CutOf [p] (w :: whole) := by
  obtain ⟨back, rfl⟩ := h
  exact .within p back whole

/-- The first octets of a part of some pieces are those of the whole, unless it has fewer of them. -/
def SameHead (n : Nat) (ps : List Piece) (part whole : Bytes × Nat × List Piece) : Prop :=
  (part.1.length < n ∧ part.1 = (ps.map Piece.octets).flatten ∧ part.2.2 = []) ∨
    (n ≤ part.1.length ∧ part.1 = whole.1 ∧
      CutOf (part.2.2.map Piece.octets) (whole.2.2.map Piece.octets))

theorem splitHead_within (n drawn drawn' : Nat) {p w : Piece} (h : p.octets <+: w.octets)
    (ws : List Piece) :
    SameHead n [p] (Delivery.splitHead n drawn [p]) (Delivery.splitHead n drawn' (w :: ws)) := by
  unfold Delivery.splitHead
  by_cases hp : p.octets.length < n
  · rw [if_pos hp]
    refine Or.inl ⟨?_, ?_, rfl⟩
    · simpa [Delivery.splitHead] using hp
    · simp [Delivery.splitHead]
  · have hw : ¬ w.octets.length < n := by
      have := h.length_le
      omega
    obtain ⟨back, hback⟩ := h
    rw [if_neg hp, if_neg hw]
    refine Or.inr ⟨?_, ?_, ?_⟩
    · rw [List.length_take]
      omega
    · rw [← hback, List.take_append_of_le_length (by omega)]
    · apply CutOf.of_front
      simp only
      rw [← hback, List.drop_append_of_le_length (by omega)]
      exact List.prefix_append _ _

theorem splitHead_behind (n drawn drawn' : Nat) {p w : Piece} (h : p.octets = w.octets)
    {ps ws : List Piece} (hcut : CutOf (ps.map Piece.octets) (ws.map Piece.octets))
    (ih : SameHead (n - p.octets.length) ps
      (Delivery.splitHead (n - p.octets.length) p.drawn ps)
      (Delivery.splitHead (n - p.octets.length) w.drawn ws)) :
    SameHead n (p :: ps) (Delivery.splitHead n drawn (p :: ps))
      (Delivery.splitHead n drawn' (w :: ws)) := by
  unfold Delivery.splitHead
  rw [← h]
  by_cases hp : p.octets.length < n
  · rw [if_pos hp, if_pos hp]
    rcases ih with ⟨hl, he, hr⟩ | ⟨hl, he, hr⟩
    · refine Or.inl ⟨?_, ?_, hr⟩
      · simp only [List.length_append]
        omega
      · simp only [List.map_cons, List.flatten_cons, he]
    · refine Or.inr ⟨?_, ?_, hr⟩
      · simp only [List.length_append]
        omega
      · simp only [he]
  · rw [if_neg hp, if_neg hp]
    refine Or.inr ⟨?_, rfl, .behind _ hcut⟩
    rw [List.length_take]
    omega

theorem splitHead_cut (n drawn drawn' : Nat) {ps ws : List Piece}
    (h : CutOf (ps.map Piece.octets) (ws.map Piece.octets)) :
    SameHead n ps (Delivery.splitHead n drawn ps) (Delivery.splitHead n drawn' ws) := by
  induction ps generalizing n drawn drawn' ws with
  | nil =>
    rcases Nat.eq_zero_or_pos n with rfl | hn
    · refine Or.inr ⟨Nat.zero_le _, ?_, .between _⟩
      cases ws with
      | nil => rfl
      | cons w ws => simp [Delivery.splitHead]
    · exact Or.inl ⟨hn, rfl, rfl⟩
  | cons p ps ih =>
    obtain ⟨o, rest, hws, hcut⟩ := CutOf.of_cons h
    obtain ⟨w, ws, rfl, rfl, rfl⟩ := List.map_eq_cons_iff.mp hws
    rcases hcut with ⟨hps, hpw⟩ | ⟨hpw, hcut⟩
    · obtain rfl := List.map_eq_nil_iff.mp hps
      exact splitHead_within n drawn drawn' hpw ws
    · exact splitHead_behind n drawn drawn' hpw hcut (ih _ _ _ hcut)

/-! ## Deliveries in UTF-8 -/

/-- The encoding of a text, by its first octets unless it is fixed. -/
def markedOr (e : Encoding) (fixed : Bool) (head : Bytes) : Encoding :=
  (if fixed ∨ head.length < Delivery.markLength then none else Encoding.ofMark? head).getD e

theorem failure_transcode (codecs : Codecs) (d : Delivery) (e : Encoding) (fixed : Bool) :
    (d.transcode codecs e fixed).failure = d.failure := by
  unfold Delivery.transcode
  simp only
  split <;> rfl

namespace Decoder

/-- It reads UTF-8 or UTF-16. -/
def IsUnicode : Decoder → Prop
  | .utf8 _ | .utf16 .. => True
  | _ => False

theorem IsUnicode.run {d : Decoder} (h : d.IsUnicode) (bytes : Bytes) : (d.run bytes).1.IsUnicode := by
  induction bytes generalizing d with
  | nil => exact h
  | cons b bytes ih =>
    rw [run_cons]
    refine ih ?_
    cases d with
    | utf8 => trivial
    | utf16 _ octet => cases octet <;> trivial
    | _ => cases h

theorem isUnicode_markedOr (foreign : Encoding → Foreign) (fixed : Bool) (head : Bytes) :
    (ofEncoding foreign (markedOr .utf8 fixed head)).IsUnicode := by
  unfold markedOr
  split
  · trivial
  · unfold Encoding.ofMark?
    split <;> trivial

theorem IsUnicode.finish_cases {d : Decoder} (h : d.IsUnicode) :
    d.finish = [] ∨ d.finish = [unknown] := by
  cases d with
  | utf8 pending =>
    cases pending with
    | none => exact Or.inl rfl
    | some _ => exact Or.inr rfl
  | utf16 =>
    rw [finish]
    split
    · exact Or.inr rfl
    · exact Or.inl rfl
  | _ => cases h

/-- A character that is cut in two makes a piece of its own. -/
theorem IsUnicode.parts_ofFinish {d : Decoder} (h : d.IsUnicode) (codecs : Codecs) :
    (Filling.ofFinish codecs d).parts = [] ∨ (Filling.ofFinish codecs d).parts = [[unknown]] := by
  rcases h.finish_cases with hf | hf
  · exact Or.inl (Filling.parts_ofFinish_of_nil codecs hf)
  · right
    rw [Filling.ofFinish, hf, List.foldl_cons, List.foldl_nil]
    rcases Filling.parts_put codecs none { decoder := d } unknown with hp | ⟨front, t, hp, -⟩
    · exact hp
    · exact absurd hp.symm (by simp [Filling.parts, Filling.chunks])

end Decoder

/-- What a delivery becomes in UTF-8. -/
theorem octets_transcode {d : Delivery} {head : Bytes} {drawn : Nat} {rest : List Piece}
    (hs : Delivery.splitHead Delivery.markLength 0 d.pieces = (head, drawn, rest))
    (hf : ¬ (head.length < Delivery.markLength ∧ d.failure.isSome)) (codecs : Codecs)
    (e : Encoding) (fixed : Bool) :
    let decoder := Decoder.ofEncoding codecs.foreign (markedOr e fixed head)
    let pieces := Delivery.withoutMark (markedOr e fixed head) head :: rest.map Piece.octets
    (d.transcode codecs e fixed).pieces.map Piece.octets =
      (decoder.texts codecs pieces ++ if d.failure.isSome then []
        else (Filling.ofFinish codecs (decoder.run pieces.flatten).1).parts).map Bytes.ofChars := by
  have hm : (if fixed = true ∨ head.length < Delivery.markLength then none
    else Encoding.ofMark? head).getD e = markedOr e fixed head := rfl
  unfold Delivery.transcode
  rw [hs]
  simp only
  rw [if_neg hf, hm]
  generalize markedOr e fixed head = e'
  have hpieces := octets_decodeFrom codecs (.ofEncoding codecs.foreign e') #[]
    (⟨Delivery.withoutMark e' head, drawn⟩ :: rest)
  have hdecoder := decodeFrom_fst codecs (.ofEncoding codecs.foreign e') #[]
    (⟨Delivery.withoutMark e' head, drawn⟩ :: rest)
  rw [List.flatMap_cons, List.flatMap_def, ← List.flatten_cons] at hdecoder
  rw [List.map_cons] at hpieces
  rw [Array.toList_append, List.map_append, hpieces, hdecoder, List.map_append]
  split
  · rfl
  · rw [Filling.octets_pieces]
    rfl

theorem unmarked_of_mark {front head : Bytes} {e : Encoding} (h : front <+: head)
    (hh : Encoding.ofMark? head = some e) (hf : Encoding.ofMark? front = none) :
    0x3E ∉ front := by
  have short (mark : Bytes) {rest : Bytes} (hm : head = mark ++ rest) (hn : 0x3E ∉ mark)
      (hmark : Encoding.ofMark? mark = some e) : 0x3E ∉ front := by
    rcases List.prefix_or_prefix_of_prefix h (hm ▸ List.prefix_append mark rest) with hs | hs
    · exact fun hmem => hn (hs.subset hmem)
    · rw [ofMark?_of_front hs hmark] at hf
      cases hf
  unfold Encoding.ofMark? at hh
  split at hh
  · exact short [0xEF, 0xBB, 0xBF] rfl (by decide) hh
  · exact short [0xFF, 0xFE] rfl (by decide) hh
  · exact short [0xFE, 0xFF] rfl (by decide) hh
  · cases hh

/-- A part that lacks the mark of the whole has not even the whole first piece. -/
theorem Delivery.IsCutOf.unmarked {part whole : Delivery} {e : Encoding} (h : part.IsCutOf whole)
    (hw : Encoding.ofMark? whole.first = some e) (hp : Encoding.ofMark? part.first = none) :
    0x3E ∉ (part.pieces.map Piece.octets).flatten := by
  have hfirst := unmarked_of_mark h.first hw hp
  have hcut := h.pieces
  rw [first_eq] at hw hp hfirst
  cases hps : part.pieces.map Piece.octets with
  | nil => simp
  | cons p ps =>
    rw [hps] at hp hfirst hcut
    obtain ⟨w, rest, hws, ⟨rfl, -⟩ | ⟨rfl, -⟩⟩ := hcut.of_cons
    · simpa using hfirst
    · rw [hws] at hw
      cases hp.symm.trans hw

/-- A mark in less than three octets is one of UTF-16. -/
theorem mark_of_short {front head : Bytes} {e : Encoding} (h : front <+: head)
    (hl : head.length < Delivery.markLength) (hf : Encoding.ofMark? front = some e) :
    head = [0xFF, 0xFE] ∨ head = [0xFE, 0xFF] := by
  have hh := ofMark?_of_front h hf
  unfold Encoding.ofMark? at hh
  unfold Delivery.markLength at hl
  split at hh
  · simp only [List.length_cons] at hl
    omega
  · next rest => 
    cases rest with
    | nil => exact Or.inl rfl
    | cons b rest => simp only [List.length_cons] at hl; omega
  · next rest =>
    cases rest with
    | nil => exact Or.inr rfl
    | cons b rest => simp only [List.length_cons] at hl; omega
  · cases hh

theorem first_front (d : Delivery) : d.first <+: (d.pieces.map Piece.octets).flatten := by
  rw [first_eq]
  cases d.pieces with
  | nil => exact List.nil_prefix
  | cons p ps => exact List.prefix_append _ _

theorem forks_transcode {part whole : Delivery} {m : Encoding} (h : part.IsCutOf whole)
    (hm : Encoding.ofMark? part.first = some m) (codecs : Codecs) (fixed : Bool) :
    ∃ tail, 0x3E ∉ tail ∧ Forks tail ((part.transcode codecs .utf8 fixed).pieces.map Piece.octets)
      ((whole.transcode codecs .utf8 fixed).pieces.map Piece.octets) := by
  rcases hp : Delivery.splitHead Delivery.markLength 0 part.pieces with ⟨head, drawn, rest⟩
  rcases hw : Delivery.splitHead Delivery.markLength 0 whole.pieces with ⟨head', drawn', rest'⟩
  have hcut := splitHead_cut Delivery.markLength 0 0 h.pieces
  rw [hp, hw] at hcut
  have hpart := octets_transcode hp (by simp [h.unbroken]) codecs .utf8 fixed
  simp only [h.unbroken, Option.isSome_none, Bool.false_eq_true, if_false] at hpart
  rcases hcut with ⟨hl, rfl, rfl⟩ | ⟨hl, rfl, hcut⟩
  · -- The part is no more than a mark of UTF-16.
    have hutf8 : Decoder.ofEncoding codecs.foreign (Option.getD none .utf8) = .utf8 none := rfl
    refine ⟨_, ?_, .of_tail _ _⟩
    rw [hpart, ← ofChars_flatten, List.flatten_append, Decoder.flatten_texts,
      Filling.flatten_ofFinish, markedOr, if_pos (Or.inr hl), hutf8]
    rcases mark_of_short (first_front part) hl hm with hh | hh <;> rw [hh] <;> decide +kernel
  · have hwhole := octets_transcode hw (fun hf => Nat.not_lt.mpr hl hf.1) codecs .utf8 fixed
    have hforks := ((CutOf.behind (Delivery.withoutMark (markedOr .utf8 fixed head) head)
      hcut).forks_texts codecs (.ofEncoding codecs.foreign (markedOr .utf8 fixed head)))
    have hunicode := Decoder.isUnicode_markedOr codecs.foreign fixed head
    rw [hpart, hwhole, List.map_append, List.map_append]
    rcases (hunicode.run _).parts_ofFinish codecs with hlast | hlast
    · rw [hlast, List.map_nil, List.append_nil]
      exact ⟨[], by simp, hforks.append_whole _⟩
    · rw [hlast]
      exact ⟨_, by decide +kernel, (hforks.append_whole _).concat_part _⟩

/-- A part of a delivery in UTF-8 comes in the same pieces. What it has of its own in the end holds
no markup. -/
theorem Delivery.IsCutOf.toUtf8 {part whole : Delivery} {label : Option String}
    (h : part.IsCutOf whole) (codecs : Codecs) (hw : whole.encoding label = .ok .utf8) :
    ∃ p w tail, part.toUtf8 codecs label = .ok (.utf8, p) ∧
      whole.toUtf8 codecs label = .ok (.utf8, w) ∧
      p.failure = none ∧ 0x3E ∉ tail ∧
      Forks tail (p.pieces.map Piece.octets) (w.pieces.map Piece.octets) := by
  have hp := h.encoding hw
  unfold Delivery.toUtf8
  rw [hp, hw]
  simp only [bind, Except.bind, pure, Except.pure, true_and]
  cases hmw : Encoding.ofMark? whole.first with
  | none =>
    cases hmp : Encoding.ofMark? part.first with
    | some e =>
      rw [ofMark?_of_front h.first hmp] at hmw
      cases hmw
    | none => exact ⟨part, whole, [], rfl, rfl, h.unbroken, by simp, h.pieces.forks⟩
  | some m =>
    cases hmp : Encoding.ofMark? part.first with
    | none =>
      exact ⟨part, _, _, rfl, rfl, h.unbroken, h.unmarked hmw hmp, .of_tail _ _⟩
    | some m' =>
      obtain ⟨tail, ht, hforks⟩ := forks_transcode h hmp codecs label.isSome
      exact ⟨_, _, tail, rfl, rfl, (failure_transcode _ _ _ _).trans h.unbroken, ht, hforks⟩

end MapTables
