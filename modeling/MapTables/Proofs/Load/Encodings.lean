import MapTables.Proofs.Input.Declaration
import MapTables.Proofs.Input.Encoders
import MapTables.Proofs.Load.Pieces

/-!
# Texts in any encoding

A load comes to the same whether a text is written in UTF-8, in UTF-16 or with one octet for each
character, as long as the octets tell which.
-/

namespace MapTables

/-! ## Marks in front -/

theorem mark_cases (e : Encoding) : e.mark = [] ∨ Encoding.ofMark? e.mark = some e := by
  cases e <;> first | exact Or.inl rfl | exact Or.inr rfl

theorem textOf_of_unmarked {foreign : Encoding → Foreign} {e : Encoding} {fixed : Bool}
    {bytes : Bytes} (h : Encoding.ofMark? (bytes.take Delivery.markLength) = none) :
    textOf foreign e fixed bytes = (Decoder.ofEncoding foreign e).text bytes := by
  have he : markedOr e fixed (bytes.take Delivery.markLength) = e := by
    unfold markedOr
    rw [h, ite_self, Option.getD_none]
  have hw : Delivery.withoutMark e (bytes.take Delivery.markLength) =
      bytes.take Delivery.markLength := by
    unfold Delivery.withoutMark
    split
    · next hp =>
      rcases mark_cases e with hm | hm
      · rw [hm]
        rfl
      · rw [List.isPrefixOf_iff_prefix] at hp
        cases h.symm.trans (ofMark?_of_front hp hm)
    · rfl
  unfold textOf
  simp only [he, hw, List.take_append_drop]

theorem length_mark_le (e : Encoding) : e.mark.length ≤ Delivery.markLength := by
  cases e <;> decide

theorem textOf_of_marked {foreign : Encoding → Foreign} {e e' : Encoding}
    (hm : Encoding.ofMark? e.mark = some e) {bytes : Bytes}
    (hl : Delivery.markLength ≤ (e.mark ++ bytes).length) :
    textOf foreign e' false (e.mark ++ bytes) = (Decoder.ofEncoding foreign e).text bytes := by
  have hhead : (e.mark ++ bytes).take Delivery.markLength =
      e.mark ++ bytes.take (Delivery.markLength - e.mark.length) := by
    rw [List.take_append, List.take_of_length_le (length_mark_le e)]
  have hlen : ¬ ((e.mark ++ bytes).take Delivery.markLength).length < Delivery.markLength := by
    rw [List.length_take]
    omega
  have he : markedOr e' false ((e.mark ++ bytes).take Delivery.markLength) = e := by
    unfold markedOr
    rw [if_neg (by simp only [Bool.false_eq_true, false_or]; exact hlen),
      ofMark?_of_front (hhead ▸ List.prefix_append _ _) hm, Option.getD_some]
  unfold textOf
  simp only [he]
  rw [hhead, Delivery.withoutMark, if_pos (List.isPrefixOf_iff_prefix.mpr (List.prefix_append _ _)),
    List.drop_left, List.drop_append, List.drop_of_length_le (length_mark_le e), List.nil_append,
    List.take_append_drop]

/-! ## What octets come to -/

namespace Delivery

def ComesTo (d : Delivery) (codecs : Codecs) (label : Option String) (cs : List Char) : Prop :=
  ∃ e u, d.toUtf8 codecs label = .ok (e, u) ∧ u.failure = none ∧
    (Markup.dropMark (u.pieces.map Piece.octets)).flatten = Bytes.ofChars cs

/-- Octets as a reader that fills its buffer delivers them. -/
def full (bytes : Bytes) : Delivery := .ofBytes bytes blockSize none

theorem octets_full (bytes : Bytes) : (full bytes).octets = bytes := by
  unfold full ofBytes octets
  rw [flatten_counted, flatten_blocks _ (by decide)]

theorem first_full (bytes : Bytes) : (full bytes).first = bytes.take blockSize := by
  rw [first_eq]
  unfold full ofBytes
  rw [map_octets_counted]
  by_cases hb : bytes = []
  · subst hb
    rw [blocks_nil]
    rfl
  · rw [blocks_eq (by decide) hb]
    rfl

end Delivery

variable {codecs : Codecs} {cs : List Char} {bytes : Bytes}

theorem ofChars_of_tag (h : cs.head? = some '<') :
    ∃ more, cs = '<' :: more ∧ Bytes.ofChars cs = 0x3C :: Bytes.ofChars more := by
  cases cs with
  | nil => cases h
  | cons c more =>
    obtain rfl := Option.some.inj h
    exact ⟨more, rfl, rfl⟩

theorem ofText?_utf8 : Encoding.ofText? "utf-8" = some .utf8 := by decide +kernel

theorem ofMark?_of_tag (h : cs.head? = some '<') :
    Encoding.ofMark? (Delivery.full (Bytes.ofChars cs)).first = none := by
  obtain ⟨more, -, hcs⟩ := ofChars_of_tag h
  rw [Delivery.first_full, hcs]
  rfl

theorem toUtf8_of_utf8 {label : String} (hl : Encoding.ofText? label = some .utf8)
    (h : cs.head? = some '<') : (Delivery.full (Bytes.ofChars cs)).toUtf8 codecs (some label) =
      .ok (.utf8, Delivery.full (Bytes.ofChars cs)) := by
  unfold Delivery.toUtf8
  rw [Delivery.encoding_of_unbroken rfl]
  simp only [hl, bind, Except.bind, ofMark?_of_tag h, and_self, if_true, pure, Except.pure]

theorem comesTo_of_utf8 {label : String} (hl : Encoding.ofText? label = some .utf8)
    (h : cs.head? = some '<') : (Delivery.full (Bytes.ofChars cs)).ComesTo codecs (some label) cs := by
  refine ⟨_, _, toUtf8_of_utf8 hl h, rfl, ?_⟩
  rw [Delivery.dropMark_of_unmarked (ofMark?_of_tag h), ← List.flatMap_def]
  exact Delivery.octets_full _

theorem toUtf8_of_sniff {e : Encoding} (hs : Encoding.sniff (bytes.take blockSize) = e)
    (he : e ≠ .utf8) : (Delivery.full bytes).toUtf8 codecs none =
      .ok (e, (Delivery.full bytes).transcode codecs e false) := by
  unfold Delivery.toUtf8
  rw [Delivery.encoding_of_unbroken rfl]
  simp only [Delivery.first_full, hs, bind, Except.bind, he, false_and, if_false, pure,
    Except.pure]
  rfl

theorem comesTo_of_textOf {e : Encoding} (hs : Encoding.sniff (bytes.take blockSize) = e)
    (he : e ≠ .utf8) (ht : textOf codecs.foreign e false bytes = cs) (h : cs.head? = some '<') :
    (Delivery.full bytes).ComesTo codecs none cs := by
  obtain ⟨texts, hne, hpieces, htext⟩ :=
    texts_of_transcode (d := Delivery.full bytes) rfl codecs e false
  refine ⟨_, _, toUtf8_of_sniff hs he, failure_transcode _ _ _ _, ?_⟩
  obtain ⟨more, -, hcs⟩ := ofChars_of_tag h
  rw [hpieces, flatten_dropMark_texts hne, htext, Delivery.octets_full, ht, hcs]
  rfl

/-! ## The ways to write a text -/

/-- The octets write the text in another encoding than UTF-8 and tell so themselves: by a mark or
by how the `<` in front is written, or else in the declaration there. -/
inductive WrittenAs (cs : List Char) : Bytes → Prop
  | utf16 (big : Bool) : WrittenAs cs (Utf16.encode big cs)
  | markedUtf16 (big : Bool) : WrittenAs cs ((Utf16.encoding big).mark ++ Utf16.encode big cs)
  | declared {e : Encoding} {bytes : Bytes} {d : XmlDeclaration}
      {p : PseudoAttribute "encoding" XmlDeclaration.isEncodingName} (single : e.isSingleByte)
      (encoded : e.encode? cs = some bytes) (front : d.octets <+: Bytes.ofChars cs)
      (early : d.octets.length ≤ blockSize) (named : d.encoding = some p)
      (label : Encoding.ofLabel? p.value = some e) : WrittenAs cs bytes

theorem encode_of_tag (big : Bool) (h : cs.head? = some '<') :
    ∃ more, Utf16.encode big cs = (if big then [0x00, 0x3C] else [0x3C, 0x00]) ++ more := by
  obtain ⟨more, rfl, -⟩ := ofChars_of_tag h
  refine ⟨Utf16.encode big more, ?_⟩
  cases big <;> rfl

theorem sniff_utf16 (big : Bool) (h : cs.head? = some '<') :
    Encoding.sniff ((Utf16.encode big cs).take blockSize) = Utf16.encoding big := by
  obtain ⟨more, hmore⟩ := encode_of_tag big h
  rw [hmore]
  cases big <;> rfl

theorem encoding_ne_utf8 (big : Bool) : Utf16.encoding big ≠ .utf8 := by
  cases big <;> decide

theorem comesTo_of_utf16 (big : Bool) (h : cs.head? = some '<') :
    (Delivery.full (Utf16.encode big cs)).ComesTo codecs none cs := by
  refine comesTo_of_textOf (sniff_utf16 big h) (encoding_ne_utf8 big) ?_ h
  obtain ⟨more, hmore⟩ := encode_of_tag big h
  rw [textOf_of_unmarked, Utf16.ofEncoding_encoding, Decoder.text_utf16]
  rw [hmore]
  cases big <;> rfl

theorem comesTo_of_markedUtf16 (big : Bool) (h : cs.head? = some '<') :
    (Delivery.full ((Utf16.encoding big).mark ++ Utf16.encode big cs)).ComesTo codecs none cs := by
  obtain ⟨more, hmore, -⟩ := ofChars_of_tag h
  have hmark : Encoding.ofMark? (Utf16.encoding big).mark = some (Utf16.encoding big) := by
    cases big <;> rfl
  have hsniff : Encoding.sniff (((Utf16.encoding big).mark ++ Utf16.encode big cs).take blockSize) =
      Utf16.encoding big := by
    refine sniff_of_mark (ofMark?_of_front ?_ hmark)
    cases big <;> exact List.prefix_append _ _
  refine comesTo_of_textOf hsniff (encoding_ne_utf8 big) ?_ h
  rw [textOf_of_marked hmark, Utf16.ofEncoding_encoding, Decoder.text_utf16]
  rw [hmore]
  cases big <;> exact Nat.le_add_left 3 _

theorem comesTo_of_declared {e : Encoding} (single : e.isSingleByte)
    (encoded : e.encode? cs = some bytes) {d : XmlDeclaration}
    (front : d.octets <+: Bytes.ofChars cs) (early : d.octets.length ≤ blockSize)
    {p : PseudoAttribute "encoding" XmlDeclaration.isEncodingName} (named : d.encoding = some p)
    (label : Encoding.ofLabel? p.value = some e) (h : cs.head? = some '<') :
    (Delivery.full bytes).ComesTo codecs none cs := by
  have hutf16 : e.isUtf16 = false := by
    cases e <;> first | rfl | cases single
  have hutf8 : e ≠ .utf8 := by
    rintro rfl
    cases single
  have hstart : d.octets <+: bytes := Encoding.ascii_of_encode? d.ascii_octets encoded front
  have hpiece : d.octets <+: bytes.take blockSize := List.prefix_take_iff.mpr ⟨hstart, early⟩
  obtain ⟨hsniff, -⟩ := declared?_of_declaration named label hutf16 hpiece
  refine comesTo_of_textOf hsniff hutf8 ?_ h
  rw [textOf_of_unmarked, Decoder.text_encode? single encoded]
  obtain ⟨more, -, hcs⟩ := ofChars_of_tag h
  have htag : [0x3C] <+: bytes :=
    Encoding.ascii_of_encode? (by simp) encoded (hcs ▸ ⟨Bytes.ofChars more, rfl⟩)
  obtain ⟨rest, rfl⟩ := htag
  rfl

theorem WrittenAs.comesTo (h : WrittenAs cs bytes) (hcs : cs.head? = some '<') :
    (Delivery.full bytes).ComesTo codecs none cs := by
  cases h with
  | utf16 big => exact comesTo_of_utf16 big hcs
  | markedUtf16 big => exact comesTo_of_markedUtf16 big hcs
  | declared single encoded front early named label =>
    exact comesTo_of_declared single encoded front early named label hcs

/-! ## Documents -/

namespace Input

variable {i i' : Input} {label label' : Option String}

theorem akin_of_comesTo (h : i.delivery.ComesTo i.codecs label cs)
    (h' : i'.delivery.ComesTo i'.codecs label' cs)
    (hi : ¬ i.MeetsDivided label) (hi' : ¬ i'.MeetsDivided label') :
    i.Akin Eq (fun _ _ => True) label i' label' := by
  obtain ⟨e, u, hu, unbroken, htext⟩ := h
  obtain ⟨e', u', hu', unbroken', htext'⟩ := h'
  have hall := items_of_same_octets unbroken unbroken' (htext.trans htext'.symm)
    (fun hm => hi ⟨e, u, hu, hm⟩) fun hm => hi' ⟨e', u', hu', hm⟩
  refine Or.inr ⟨_, _, ?_, ?_, hall.imp fun _ _ => Load.Item.Alike.akin⟩
  · rw [items, hu]
    rfl
  · rw [items, hu']
    rfl

theorem akin_of_what {F : LoadFault → LoadFault → Prop} [Std.Refl F] {items items' : List Item}
    (hi : i.items label = .ok items) (hi' : i'.items label' = .ok items')
    (h : items'.map Item.what = items.map Item.what) :
    i.Akin F (fun _ _ => True) label i' label' := by
  refine Or.inr ⟨items, items', hi, hi', ?_⟩
  rw [← List.forall₂_eq_eq_eq, List.forall₂_map_left_iff, List.forall₂_map_right_iff] at h
  exact h.flip.imp fun _ _ hw => Load.Item.Alike.akin ⟨hw, trivial⟩

theorem akin_of_fault {F : LoadFault → LoadFault → Prop} {items items' : List Item}
    (hi : i.items label = .ok items) (hi' : i'.items label' = .ok items') {f f' : ReadFault}
    (h : items.map Item.what = [.error f]) (h' : items'.map Item.what = [.error f'])
    (hf : F (.unreadable f) (.unreadable f')) : i.Akin F (fun _ _ => True) label i' label' := by
  refine Or.inr ⟨items, items', hi, hi', ?_⟩
  obtain ⟨⟨w, p, n⟩, rfl, hw⟩ := List.map_eq_singleton_iff.mp h
  obtain ⟨⟨w', p', n'⟩, rfl, hw'⟩ := List.map_eq_singleton_iff.mp h'
  obtain rfl : w = _ := hw
  obtain rfl : w' = _ := hw'
  exact .cons (.fault hf) .nil

theorem not_meetsDivided_of_text (h : i.delivery.ComesTo i.codecs label cs)
    (hn : ¬ Markup.NamesDoctype (Bytes.ofChars cs)) : ¬ i.MeetsDivided label := by
  obtain ⟨e, u, hu, -, htext⟩ := h
  refine not_meetsDivided fun r hr => ?_
  cases hu.symm.trans hr
  rw [Markup.rest_ofDelivery, htext]
  exact hn

end Input

/-! ## Document types beyond a buffer -/

namespace Delivery

theorem pieces_full_of_short (hne : bytes ≠ []) (hle : bytes.length ≤ blockSize) :
    (full bytes).pieces = [⟨bytes, bytes.length⟩] := by
  unfold full ofBytes
  simp only [Nat.min_self]
  rw [blocks_eq (by decide) hne, List.take_of_length_le hle,
    List.drop_of_length_le hle, blocks_nil]
  simp [counted]

theorem pieces_full_of_two {front back : Bytes} (hfull : front.length = blockSize)
    (hne : back ≠ []) (hle : back.length ≤ blockSize) :
    ∃ drawn, (full (front ++ back)).pieces = [⟨front, blockSize⟩, ⟨back, drawn⟩] := by
  refine ⟨front.length + back.length, ?_⟩
  unfold full ofBytes
  simp only [Nat.min_self]
  rw [blocks_eq (by decide) (List.append_ne_nil_of_right_ne_nil _ hne), ← hfull,
    List.take_left, List.drop_left, hfull, blocks_eq (by decide) hne, List.take_of_length_le hle,
    List.drop_of_length_le hle, blocks_nil]
  simp [counted, hfull]

end Delivery

theorem encode_utf16_ne_nil {cs : List Char} (h : cs ≠ []) : Utf16.encode false cs ≠ [] := by
  intro hnil
  have hruns := Decoder.run_utf16 false cs
  rw [hnil] at hruns
  exact h (by simpa [Decoder.run] using (congrArg Prod.snd hruns).symm)

/-- The first octet of a text in UTF-16 may have been read with what was in front. -/
theorem run_behind_half {cs : List Char} {b : UInt8} {more : Bytes}
    (h : Utf16.encode false cs = b :: more) :
    (Decoder.utf16 false (some b) none).run more = (.utf16 false none none, cs.toArray) := by
  have hhalf : (Decoder.utf16 false none none).run [b] = (.utf16 false (some b) none, #[]) := rfl
  have hruns := Decoder.run_utf16 false cs
  rw [h, ← List.singleton_append, Decoder.run_append, hhalf] at hruns
  simpa only [Array.empty_append] using hruns

/-- A buffer of UTF-16 makes two pieces, as the three octets that are looked at for a mark are one
character and half of another. -/
theorem dropMark_of_utf16 {front back : List Char} (hne : back ≠ [])
    (hfull : (Utf16.encode false ('<' :: front)).length = blockSize)
    (hle : (Utf16.encode false back).length ≤ blockSize)
    (room : (Bytes.ofChars front).length + 4 ≤ blockSize)
    (room' : (Bytes.ofChars back).length + 4 ≤ blockSize) :
    Markup.dropMark (((Delivery.full (Utf16.encode false ('<' :: front ++ back))).transcode {}
      .utf16LE false).pieces.map Piece.octets) =
      [Bytes.ofChars ['<'], Bytes.ofChars front, Bytes.ofChars back] := by
  have hsplit : Utf16.encode false ('<' :: front ++ back) =
      Utf16.encode false ('<' :: front) ++ Utf16.encode false back := List.flatMap_append
  have htag : Utf16.encode false ('<' :: front) = [0x3C, 0x00] ++ Utf16.encode false front := rfl
  have hlen : (Utf16.encode false front).length = 8190 := by
    rw [htag, List.length_append] at hfull
    exact Nat.add_left_cancel hfull
  obtain ⟨b, more, hb⟩ := List.exists_cons_of_length_pos (hlen ▸ (by omega : 0 < 8190))
  have hfront : front ≠ [] := by
    rintro rfl
    cases hlen
  obtain ⟨drawn, hpieces⟩ := Delivery.pieces_full_of_two hfull (encode_utf16_ne_nil hne) hle
  have hs : Delivery.splitHead Delivery.markLength 0
      (Delivery.full (Utf16.encode false ('<' :: front ++ back))).pieces =
      ([0x3C, 0x00, b], blockSize, [⟨more, blockSize⟩, ⟨Utf16.encode false back, drawn⟩]) := by
    rw [hsplit, hpieces, htag, hb]
    exact if_neg (Nat.not_lt.mpr (Nat.le_add_left 3 _))
  rw [pieces_of_transcode rfl hs]
  have hstart : (Decoder.utf16 false none none).run [0x3C, 0x00, b] =
      (.utf16 false (some b) none, #['<']) := rfl
  have hrest := run_behind_half hb
  have hfinish : ((Decoder.utf16 false none none).run
      ([0x3C, 0x00, b] ++ (more ++ Utf16.encode false back))).1.finish = [] := by
    rw [Decoder.run_append, hstart, Decoder.run_append, hrest, Decoder.run_utf16]
    rfl
  have hroom : (Bytes.ofChars ['<']).length + 4 ≤ blockSize := by decide
  have htexts : (Decoder.utf16 false none none).wholeTexts {}
      [[0x3C, 0x00, b], more, Utf16.encode false back] = [['<'], front, back] := by
    rw [Decoder.wholeTexts, List.flatten_cons, List.flatten_cons, List.flatten_singleton,
      Filling.parts_ofFinish_of_nil {} hfinish, Decoder.texts, hstart, Decoder.texts, hrest,
      Decoder.texts, Decoder.run_utf16, Decoder.texts,
      Filling.parts_of_short hstart (List.cons_ne_nil _ _) hroom,
      Filling.parts_of_short hrest hfront room,
      Filling.parts_of_short (Decoder.run_utf16 false back) hne room']
    rfl
  rw [List.map_cons, List.map_cons, List.map_nil]
  exact congrArg (Markup.dropMark ∘ List.map Bytes.ofChars) htexts

theorem dropMark_of_short (h : cs.head? = some '<')
    (hle : (Bytes.ofChars cs).length ≤ blockSize) :
    Markup.dropMark ((Delivery.full (Bytes.ofChars cs)).pieces.map Piece.octets) =
      [Bytes.ofChars cs] := by
  obtain ⟨more, -, hcs⟩ := ofChars_of_tag h
  rw [Delivery.dropMark_of_unmarked (ofMark?_of_tag h),
    Delivery.pieces_full_of_short (hcs ▸ List.cons_ne_nil _ _) hle]
  rfl

/-- A document type with a declaration that is open behind so many spaces. -/
def openDoctype (n : Nat) : List Char := "!DOCTYPE a [<!ELEMENT b".toList ++ List.replicate n ' '

theorem openDoctype_words :
    let opening := Bytes.ofString "DOCTYPE a ["
    let inner := Bytes.ofString "!ELEMENT b"
    let word := "!DOCTYPE a [<!ELEMENT b".toList
    (word.length = 23 ∧ word.all (·.toNat < 0x10000) ∧
      Bytes.ofChars word = 0x21 :: (opening ++ 0x3C :: inner)) ∧
    (opening.length = 11 ∧ opening.all (fun b => b ≠ 0x3C ∧ b ≠ 0x3E) ∧
      opening.head? = some 0x44 ∧ Markup.bangFault? .doctype opening = none) ∧
    inner.length = 10 ∧ inner.all (fun b => b ≠ 0x3C ∧ b ≠ 0x3E) := by
  decide +kernel

theorem ofChars_openDoctype (n : Nat) : Bytes.ofChars (openDoctype n) =
    0x21 :: (Bytes.ofString "DOCTYPE a [" ++
      0x3C :: (Bytes.ofString "!ELEMENT b" ++ List.replicate n 0x20)) := by
  have hspaces : Bytes.ofChars (List.replicate n ' ') = List.replicate n 0x20 := by
    rw [Bytes.ofChars, List.flatMap_replicate]
    exact List.flatten_replicate_singleton
  obtain ⟨⟨-, -, hword⟩, -⟩ := openDoctype_words
  -- Words are kept shut, or else they are evaluated with every step.
  unfold openDoctype
  generalize "!DOCTYPE a [<!ELEMENT b".toList = word, Bytes.ofString "DOCTYPE a [" = opening,
    Bytes.ofString "!ELEMENT b" = inner at hword ⊢
  rw [ofChars_append, hspaces, hword, List.cons_append, List.append_assoc, List.cons_append]

theorem length_ofChars_openDoctype (n : Nat) :
    (Bytes.ofChars (openDoctype n)).length = 23 + n := by
  obtain ⟨-, ⟨hopening, -⟩, hinner, -⟩ := openDoctype_words
  rw [ofChars_openDoctype]
  generalize Bytes.ofString "DOCTYPE a [" = opening, Bytes.ofString "!ELEMENT b" = inner
    at hopening hinner ⊢
  simp only [List.length_cons, List.length_append, List.length_replicate, hopening, hinner]
  omega

theorem length_encode_openDoctype (n : Nat) :
    (Utf16.encode false ('<' :: openDoctype n)).length = 48 + 2 * n := by
  obtain ⟨⟨hword, hnarrow, -⟩, -⟩ := openDoctype_words
  unfold openDoctype
  generalize "!DOCTYPE a [<!ELEMENT b".toList = word at hword hnarrow ⊢
  rw [Utf16.length_encode]
  · simp only [List.length_cons, List.length_append, List.length_replicate, hword]
    omega
  · intro c hc
    rcases List.mem_cons.mp hc with rfl | hc
    · decide
    · rcases List.mem_append.mp hc with hc | hc
      · exact of_decide_eq_true (List.all_eq_true.mp hnarrow c hc)
      · obtain rfl := List.eq_of_mem_replicate hc
        decide

theorem Input.items_of_openDoctype {i : Input} {label : Option String} {e : Encoding}
    {u : Delivery} (hu : i.delivery.toUtf8 i.codecs label = .ok (e, u)) (unbroken : u.failure = none)
    {parts : List Bytes} (hparts : Markup.dropMark (u.pieces.map Piece.octets) = parts) {n m : Nat}
    {back text : Bytes} (htext : parts.flatten = 0x3C :: (Bytes.ofChars (openDoctype n) ++ back))
    {ends : List Nat} (hends : (Markup.stops 0 parts).dropWhile (· ≤ 1) = ends)
    (ahead : ∀ e ∈ ends.head?, 24 + n ≤ e)
    (hl : Markup.doctypeLength? ends (24 + n) (22 + n) 1 back = some (22 + n + m))
    (hback : back.drop (m + 1) = text) (hn : ¬ Markup.NamesDoctype text) :
    ∃ items, i.items label = .ok items ∧ items.map Item.what = (Markup.Cursor.read none
      { rest := text, offset := 22 + n + m + 3, ends := [] }).items.map Item.what := by
  subst hparts
  obtain ⟨-, ⟨-, plain, hd, hfault⟩, -, plain'⟩ := openDoctype_words
  have hlen := length_ofChars_openDoctype n
  have hfront := ofChars_openDoctype n
  generalize Bytes.ofString "DOCTYPE a [" = opening, Bytes.ofString "!ELEMENT b" = word
    at plain hd hfault plain' hfront
  generalize hinner : word ++ List.replicate n 0x20 = inner at hfront
  rw [hfront, List.length_cons] at hlen
  replace hlen : (opening ++ 0x3C :: inner).length = 22 + n := by omega
  replace plain (b : UInt8) (hb : b ∈ opening) : b ≠ 0x3C ∧ b ≠ 0x3E :=
    of_decide_eq_true (List.all_eq_true.mp plain b hb)
  have inside : ∀ b ∈ inner, b ≠ 0x3C ∧ b ≠ 0x3E := by
    intro b hb
    rw [← hinner] at hb
    rcases List.mem_append.mp hb with hb | hb
    · exact of_decide_eq_true (List.all_eq_true.mp plain' b hb)
    · obtain rfl := List.eq_of_mem_replicate hb
      exact ⟨by decide, by decide⟩
  have hmore : 0x3C :: (Bytes.ofChars (openDoctype n) ++ back) =
      0x3C :: 0x21 :: (opening ++ 0x3C :: inner ++ back) := by
    rw [hfront, List.cons_append]
  have hdrop : (opening ++ 0x3C :: inner ++ back).drop (22 + n + m + 1) = text := by
    rw [← hlen, Nat.add_assoc, List.drop_length_add_append, hback]
  replace hfault : Markup.bangFault? .doctype
      ((opening ++ 0x3C :: inner ++ back).take (22 + n + m)) = none := by
    rw [← hlen, List.take_length_add_append, List.append_assoc]
    exact Markup.bangFault?_append hfault _
  have hlength : Markup.doctypeLength? ends 2 0 0 (opening ++ 0x3C :: inner ++ back) =
      some (22 + n + m) := by
    rw [Markup.doctypeLength?_opening plain inside, hlen, ← hl]
    · congr 1 <;> omega
    · rw [hlen]
      intro e he
      have := ahead e he
      omega
  replace hd : (opening ++ 0x3C :: inner ++ back).head? = some 0x44 := by
    rw [List.append_assoc, List.head?_append, hd, Option.some_or]
  have hread := Markup.items_of_doctype unbroken (htext.trans hmore) hd (hends ▸ hlength) hfault
    (hdrop.symm ▸ hn)
  refine ⟨(Transcript.ofDelivery u).items, ?_, hdrop ▸ hread⟩
  rw [Input.items, hu]
  rfl

theorem ofChars_behind_tag (n : Nat) (back : List Char) :
    Bytes.ofChars ('<' :: openDoctype n ++ back) =
      0x3C :: (Bytes.ofChars (openDoctype n) ++ Bytes.ofChars back) := by
  have htag : '<' :: openDoctype n ++ back = ['<'] ++ (openDoctype n ++ back) := rfl
  rw [htag, ofChars_append, ofChars_append]
  rfl

theorem items_of_open_utf8 {n m size : Nat} {back : List Char} {text : Bytes}
    (hsize : 24 + n + (Bytes.ofChars back).length = size) (hle : size ≤ blockSize)
    (hl : Markup.doctypeLength? [size] (24 + n) (22 + n) 1 (Bytes.ofChars back) =
      some (22 + n + m))
    (hback : (Bytes.ofChars back).drop (m + 1) = text) (hn : ¬ Markup.NamesDoctype text) :
    ∃ items, ({ delivery := .full (Bytes.ofChars ('<' :: openDoctype n ++ back)) } : Input).items
        (some "utf-8") = .ok items ∧ items.map Item.what = (Markup.Cursor.read none
          { rest := text, offset := 22 + n + m + 3, ends := [] }).items.map Item.what := by
  have hfront := length_ofChars_openDoctype n
  have htext := ofChars_behind_tag n back
  have hlen : (Bytes.ofChars ('<' :: openDoctype n ++ back)).length = size := by
    rw [htext, List.length_cons, List.length_append, hfront]
    omega
  refine Input.items_of_openDoctype (toUtf8_of_utf8 ofText?_utf8 rfl) rfl
    (dropMark_of_short rfl (hlen ▸ hle)) ?_ ?_ ?_ hl hback hn
  · rw [List.flatten_singleton, htext]
  · have hpast : 1 < size := by omega
    rw [Markup.stops, Markup.stops, hlen]
    simp [hpast]
  · simp
    omega

/-- In UTF-16 a buffer ends within the document type, where the declaration is open. -/
theorem items_of_open_utf16 {n m size : Nat} {back : List Char} {text : Bytes} (hne : back ≠ [])
    (hhalf : 48 + 2 * n = blockSize) (hle : (Utf16.encode false back).length ≤ blockSize)
    (room : (Bytes.ofChars back).length + 4 ≤ blockSize)
    (hsize : 24 + n + (Bytes.ofChars back).length = size)
    (hl : Markup.doctypeLength? [24 + n, size] (24 + n) (22 + n) 1 (Bytes.ofChars back) =
      some (22 + n + m))
    (hback : (Bytes.ofChars back).drop (m + 1) = text) (hn : ¬ Markup.NamesDoctype text) :
    ∃ items, ({ delivery := .full (Utf16.encode false ('<' :: openDoctype n ++ back)) } : Input).items
        none = .ok items ∧ items.map Item.what = (Markup.Cursor.read none
          { rest := text, offset := 22 + n + m + 3, ends := [] }).items.map Item.what := by
  have hfull := (length_encode_openDoctype n).trans hhalf
  have hroom : (Bytes.ofChars (openDoctype n)).length + 4 ≤ blockSize := by
    rw [length_ofChars_openDoctype]
    omega
  refine Input.items_of_openDoctype (toUtf8_of_sniff (sniff_utf16 false rfl) (encoding_ne_utf8 false))
    (failure_transcode _ _ _ _) (dropMark_of_utf16 hne hfull hle hroom room) ?_ ?_ ?_ hl hback hn
  · simp
    rfl
  · have htag : (Bytes.ofChars ['<']).length = 1 := rfl
    have hfront : 0 + 1 + (23 + n) = 24 + n := by omega
    have hpast : 1 < 24 + n := by omega
    simp [Markup.stops, htag, length_ofChars_openDoctype, hfront, hsize, hpast]
  · simp

/-! ## Loads -/

/-- A text is loaded alike in UTF-8 and in every other encoding that its octets tell, as long as no
piece ends at an open declaration in its document type. -/
theorem load_of_any_encoding {σ ω : Type} [Store σ] [Watcher ω] {cs : List Char} {bytes : Bytes}
    (tagged : cs.head? = some '<') (written : WrittenAs cs bytes) {i i' : Input}
    (hi : i.delivery = .full (Bytes.ofChars cs)) (hi' : i'.delivery = .full bytes)
    {o o' : Options} (ho : o.StoreAlike o') (utf8 : o.encoding = some "utf-8")
    (unnamed : o'.encoding = none) (undivided : ¬ i.MeetsDivided o.encoding)
    (undivided' : ¬ i'.MeetsDivided o'.encoding) {R : ω → ω → Prop} (heedless : Heedless R)
    {w w' : ω} (hw : R w w') (s : σ) (base : String) :
    let x := load i s base w o
    let y := load i' s base w' o'
    y.result = x.result ∧ y.counts = x.counts ∧ y.store = x.store := by
  intro x y
  have h : i.delivery.ComesTo i.codecs o.encoding cs := by
    rw [hi, utf8]
    exact comesTo_of_utf8 ofText?_utf8 tagged
  have h' : i'.delivery.ComesTo i'.codecs o'.encoding cs := by
    rw [hi', unnamed]
    exact written.comesTo tagged
  obtain ⟨hresult, hcounts, hstore, -⟩ := load_akin (heedless.unison i.gauge i'.gauge)
    (Input.akin_of_comesTo h h' undivided undivided') ho hw s base
  exact ⟨hresult.eq, hcounts, hstore⟩

/-- A text in Latin-1, and the same one in UTF-16 with a mark. -/
theorem load_of_any_encoding_of_latin1 :
    let text := "<?xml version='1.0' encoding = \"latin1\" ?><way id=\"1\" user=\"\u00e9\"/>".toList
    let latin1 := Bytes.ofString "<?xml version='1.0' encoding = \"latin1\" ?><way id=\"1\" user=\"" ++
      0xE9 :: Bytes.ofString "\"/>"
    let utf16 := [0xFE, 0xFF] ++ Utf16.encode true text
    let input octets : Input := { delivery := .full octets }
    let utf8 : Options := { encoding := some "utf-8" }
    let x := load (input (Bytes.ofChars text)) ({} : Memory) "t" Unwatched.mk utf8
    let y octets := load (input octets) ({} : Memory) "t" Unwatched.mk {}
    x.store.rows "t_way" = #[.way { id := 1, edit := { user := some "\u00e9" } }] ∧
    ((y latin1).result = x.result ∧ (y latin1).counts = x.counts ∧ (y latin1).store = x.store) ∧
    (y utf16).result = x.result ∧ (y utf16).counts = x.counts ∧ (y utf16).store = x.store := by
  intro text latin1 utf16 input utf8 x y
  let declaration : XmlDeclaration := {
    version := { quote := 0x27, value := Bytes.ofString "1.0", valued := by decide +kernel }
    encoding := some {
      before := [0x20], after := [0x20], value := Bytes.ofString "latin1"
      valued := by decide +kernel }
    space := [0x20] }
  have tagged : text.head? = some '<' := by decide +kernel
  have undoctyped : ¬ Markup.NamesDoctype (Bytes.ofChars text) := by decide +kernel
  have inLatin1 : WrittenAs text latin1 := by
    refine .declared (e := .windows1252) (d := declaration) (by decide) ?_ ?_ ?_ rfl ?_
    · decide +kernel
    · decide +kernel
    · decide +kernel
    · decide +kernel
  have inUtf16 : WrittenAs text utf16 := .markedUtf16 true
  have undivided : ¬ (input (Bytes.ofChars text)).MeetsDivided utf8.encoding :=
    Input.not_meetsDivided_of_text (comesTo_of_utf8 ofText?_utf8 tagged) undoctyped
  have alike {octets : Bytes} (h : WrittenAs text octets) : (y octets).result = x.result ∧
      (y octets).counts = x.counts ∧ (y octets).store = x.store := by
    have undivided' : ¬ (input octets).MeetsDivided ({} : Options).encoding :=
      Input.not_meetsDivided_of_text (h.comesTo tagged) undoctyped
    have likeStores : utf8.StoreAlike {} := ⟨rfl, rfl⟩
    have hi : (input octets).delivery = .full octets := rfl
    exact load_of_any_encoding tagged h rfl hi likeStores rfl rfl undivided undivided'
      heedless_unwatched trivial ({} : Memory) "t"
  exact ⟨by decide +kernel, alike inLatin1, alike inUtf16⟩

theorem load_akin_unwatched {σ : Type} [Store σ] {F : LoadFault → LoadFault → Prop} [Std.Refl F]
    {i i' : Input} {o o' : Options}
    (hi : i.Akin F (fun _ _ => True) o.encoding i' o'.encoding) (ho : o.StoreAlike o') (s : σ)
    (base : String) :
    EndsAlike F Eq (load i s base Unwatched.mk o).result (load i' s base Unwatched.mk o').result ∧
      (load i' s base Unwatched.mk o').counts = (load i s base Unwatched.mk o).counts :=
  have alike := load_akin (heedless_unwatched.unison i.gauge i'.gauge) hi ho trivial s base
  ⟨alike.1, alike.2.1⟩

/-- In UTF-16 a buffer ends within the document type, at a declaration that is still open. -/
theorem load_of_open_doctype :
    let text := '<' :: openDoctype 4072 ++ "><!ELEMENT c>]><way id=\"1\"/>".toList
    let x := load { delivery := .full (Bytes.ofChars text) } ({} : Memory) "t" Unwatched.mk
      { encoding := some "utf-8" }
    let y := load { delivery := .full (Utf16.encode false text) } ({} : Memory) "t" Unwatched.mk {}
    (∃ report, x.result = .ok report) ∧ x.counts.ways = 1 ∧ ∃ fault, y.result = .error fault := by
  have hbytes : (Bytes.ofChars "><!ELEMENT c>]><way id=\"1\"/>".toList).length = 28 := by
    decide +kernel
  have hunits : (Utf16.encode false "><!ELEMENT c>]><way id=\"1\"/>".toList).length ≤ blockSize := by
    decide +kernel
  have hne : "><!ELEMENT c>]><way id=\"1\"/>".toList ≠ [] := by decide +kernel
  generalize hn : 4072 = n
  generalize hback : "><!ELEMENT c>]><way id=\"1\"/>".toList = back at hbytes hunits hne ⊢
  intro text
  let passed : Input := .inPieces (Bytes.ofString "<way id=\"1\"/>") blockSize
  let refused : Input := .inPieces (Bytes.ofString "<!ELEMENT c>]><way id=\"1\"/>") blockSize
  have hsize : 24 + n + (Bytes.ofChars back).length = 4124 := by rw [hbytes, ← hn]
  obtain ⟨items, hitems, hread⟩ := items_of_open_utf8 (n := n) (m := 14) hsize (by decide)
    (by rw [← hn, ← hback]; decide +kernel) rfl (by rw [← hback]; decide +kernel)
  obtain ⟨items', hitems', hread'⟩ := items_of_open_utf16 (n := n) (m := 0) hne (hn ▸ rfl) hunits
    (by rw [hbytes]; decide) hsize (by rw [← hn, ← hback]; decide +kernel) rfl
    (by rw [← hback]; decide +kernel)
  rw [← hn, ← hback] at hread hread'
  have like : Input.Akin Eq (fun _ _ => True) { delivery := .full (Bytes.ofChars text) }
      (some "utf-8") passed none := by
    obtain ⟨items₀, hitems₀, hread₀⟩ := Option.map_eq_some_iff.mp (by decide +kernel :
      (passed.items none).toOption.map (List.map Item.what) = some ((Markup.Cursor.read none
        { rest := (Bytes.ofChars "><!ELEMENT c>]><way id=\"1\"/>".toList).drop 15,
          offset := 22 + 4072 + 14 + 3, ends := [] }).items.map Item.what))
    exact Input.akin_of_what hitems (ok_of_toOption hitems₀) (hread₀.trans hread.symm)
  have like' : Input.Akin (fun _ _ => True) (fun _ _ => True)
      { delivery := .full (Utf16.encode false text) } none refused none := by
    obtain ⟨items₀, hitems₀, hread₀⟩ := Option.map_eq_some_iff.mp (by decide +kernel :
      (refused.items none).toOption.map (List.map Item.what) =
        some [.error (.markup 1 (.unexpectedBang 0x45))])
    have hfault : items'.map Item.what = [.error (.markup 4098 (.unexpectedBang 0x45))] := by
      rw [hread']
      decide +kernel
    exact Input.akin_of_fault hitems' (ok_of_toOption hitems₀) hfault hread₀ trivial
  have anyFault : Std.Refl fun _ _ : LoadFault => True := ⟨fun _ => trivial⟩
  have stores : ({ encoding := some "utf-8" } : Options).StoreAlike {} := ⟨rfl, rfl⟩
  obtain ⟨hresult, hcounts⟩ := load_akin_unwatched like stores ({} : Memory) "t"
  obtain ⟨hresult', -⟩ := load_akin_unwatched like' (.refl {}) ({} : Memory) "t"
  have hpassed : (load passed ({} : Memory) "t" Unwatched.mk {}).result.toOption.isSome ∧
      (load passed ({} : Memory) "t" Unwatched.mk {}).counts.ways = 1 := by decide +kernel
  have hrefused : (load refused ({} : Memory) "t" Unwatched.mk {}).result.toOption.isNone := by
    decide +kernel
  obtain ⟨f, hf⟩ := exists_error_of_isNone hrefused
  have hok := congrArg (fun r => r.toOption.isSome) hresult.eq
  have hways := congrArg Counts.ways hcounts
  exact ⟨exists_ok_of_isSome (hok.symm.trans hpassed.1), hways.symm.trans hpassed.2,
    hresult'.error_of hf⟩

end MapTables
