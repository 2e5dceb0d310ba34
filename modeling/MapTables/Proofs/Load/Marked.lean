import MapTables.Proofs.Load.Encodings
import MapTables.Proofs.Markup.Mended

/-!
# Octets behind a mark

Without a mark octets in UTF-8 are read as they are. Behind a mark they are decoded first, and so
they are mended. A load comes to the same where that changes nothing of what is read.
-/

namespace MapTables

variable {codecs : Codecs} {bytes : Bytes}

namespace Delivery

theorem ofMark?_first (unmarked : Encoding.ofMark? bytes = none) :
    Encoding.ofMark? (full bytes).first = none := by
  rw [first_full]
  cases hm : Encoding.ofMark? (bytes.take blockSize) with
  | none => rfl
  | some e => cases unmarked.symm.trans (ofMark?_of_front (List.take_prefix _ _) hm)

theorem toUtf8_of_unmarked (unmarked : Encoding.ofMark? bytes = none)
    (sniffed : Encoding.sniff bytes = .utf8) :
    (full bytes).toUtf8 codecs none = .ok (.utf8, full bytes) := by
  have hfirst := ofMark?_first unmarked
  have hsniff : Encoding.sniff (full bytes).first = .utf8 := by
    rw [first_full]
    exact sniff_of_front (List.take_prefix _ _) sniffed
  unfold toUtf8
  rw [encoding_of_unbroken rfl]
  simp only [hsniff, hfirst, bind, Except.bind, and_self, if_true, pure, Except.pure]

theorem toUtf8_of_marked (codecs : Codecs) (bytes : Bytes) :
    (full (Encoding.utf8.mark ++ bytes)).toUtf8 codecs none =
      .ok (.utf8, (full (Encoding.utf8.mark ++ bytes)).transcode codecs .utf8 false) := by
  have hmark : Encoding.ofMark? (full (Encoding.utf8.mark ++ bytes)).first = some .utf8 := by
    have hfront : Encoding.utf8.mark <+: (Encoding.utf8.mark ++ bytes).take blockSize :=
      List.prefix_take_iff.mpr ⟨List.prefix_append _ _, by decide⟩
    rw [first_full]
    exact ofMark?_of_front hfront rfl
  unfold toUtf8
  rw [encoding_of_unbroken rfl]
  simp only [sniff_of_mark hmark, hmark, bind, Except.bind, pure, Except.pure, reduceCtorEq,
    and_false, if_false]
  rfl

theorem rest_of_unmarked (unmarked : Encoding.ofMark? bytes = none) :
    (Markup.Cursor.ofDelivery (full bytes)).rest = bytes := by
  rw [Markup.rest_ofDelivery, dropMark_of_unmarked (ofMark?_first unmarked), ← List.flatMap_def]
  exact octets_full bytes

theorem rest_of_marked (codecs : Codecs) (unmarked : Encoding.ofMark? bytes = none) :
    (Markup.Cursor.ofDelivery
      ((full (Encoding.utf8.mark ++ bytes)).transcode codecs .utf8 false)).rest = mend bytes := by
  obtain ⟨texts, hne, hpieces, htext⟩ :=
    texts_of_transcode (d := full (Encoding.utf8.mark ++ bytes)) rfl codecs .utf8 false
  have hmark : ¬ Markup.utf8Mark <+: bytes := fun h => by
    cases unmarked.symm.trans (ofMark?_of_front h rfl)
  rw [octets_full, textOf_of_marked rfl (by simp [Encoding.mark, markLength])] at htext
  rw [Markup.rest_ofDelivery, hpieces, flatten_dropMark_texts hne, htext]
  exact unmarked_mend hmark

end Delivery

/-! ## Documents -/

theorem Load.Item.akin_of_event? {i i' : Item} (h : i'.event? = i.event?) :
    Akin (fun _ _ => True) (fun _ _ => True) i i' := by
  obtain ⟨what, p, n⟩ := i
  obtain ⟨what', p', n'⟩ := i'
  cases what with
  | error f =>
    cases what' with
    | error f' => exact .fault trivial
    | ok e' => cases h
  | ok e =>
    cases what' with
    | error f' => cases h
    | ok e' =>
      obtain rfl : e' = e := Option.some.inj h
      exact .event trivial

theorem Input.akin_of_marked {i i' : Input} (unmarked : Encoding.ofMark? bytes = none)
    (sniffed : Encoding.sniff bytes = .utf8) (hi : i.delivery = .full bytes)
    (hi' : i'.delivery = .full (Encoding.utf8.mark ++ bytes)) (undivided : ¬ i.MeetsDivided none)
    (undivided' : ¬ i'.MeetsDivided none)
    (legible : ∀ p ∈ (Markup.Cursor.ofDelivery i.delivery).parts, p.2.Legible p.1) :
    i.Akin (fun _ _ => True) (fun _ _ => True) none i' none := by
  have hu : i.delivery.toUtf8 i.codecs none = .ok (.utf8, .full bytes) := by
    rw [hi]
    exact Delivery.toUtf8_of_unmarked unmarked sniffed
  have hu' : i'.delivery.toUtf8 i'.codecs none =
      .ok (.utf8, (Delivery.full (Encoding.utf8.mark ++ bytes)).transcode i'.codecs .utf8 false) := by
    rw [hi']
    exact Delivery.toUtf8_of_marked i'.codecs bytes
  generalize hd : (Delivery.full (Encoding.utf8.mark ++ bytes)).transcode i'.codecs .utf8 false = d
    at hu'
  have hrest := Delivery.rest_of_marked i'.codecs unmarked
  rw [hd] at hrest
  have unbroken : d.failure = none := hd ▸ failure_transcode _ _ _ _
  have mends : Markup.Cursor.Mends (.ofDelivery (.full bytes)) (.ofDelivery d) := by
    refine ⟨?_, rfl, rfl⟩
    rw [hrest, Delivery.rest_of_unmarked unmarked]
  have hread := mends.read (fun hm => undivided ⟨_, _, hu, hm⟩) (fun hm => undivided' ⟨_, _, hu', hm⟩)
    (hi ▸ legible)
  refine Or.inr ⟨(Transcript.ofDelivery (.full bytes)).items, (Transcript.ofDelivery d).items,
    ?_, ?_, ?_⟩
  · rw [items, hu]
    rfl
  · rw [items, hu']
    rfl
  · rw [Markup.items_ofDelivery fun _ => rfl, Markup.items_ofDelivery fun _ => unbroken, unbroken]
    rw [← List.forall₂_eq_eq_eq, List.forall₂_map_left_iff, List.forall₂_map_right_iff] at hread
    exact hread.flip.imp fun _ _ h => Load.Item.akin_of_event? h

/-! ## Loads -/

theorem EndsAlike.toOption {α : Type} {F : LoadFault → LoadFault → Prop}
    {r r' : Except LoadFault α} (h : EndsAlike F Eq r r') : r'.toOption = r.toOption := by
  cases h with
  | ok h => rw [h]
  | error h => rfl

/-- Octets in UTF-8 are loaded alike with a mark in front and without one, as long as all that is
read of them is legible and no piece ends at an open declaration in a document type. -/
theorem load_of_marked {σ ω : Type} [Store σ] [Watcher ω] {bytes : Bytes}
    (unmarked : Encoding.ofMark? bytes = none) (sniffed : Encoding.sniff bytes = .utf8)
    {i i' : Input} (hi : i.delivery = .full bytes)
    (hi' : i'.delivery = .full (Encoding.utf8.mark ++ bytes)) {o o' : Options}
    (ho : o.StoreAlike o') (unnamed : o.encoding = none) (unnamed' : o'.encoding = none)
    (undivided : ¬ i.MeetsDivided o.encoding) (undivided' : ¬ i'.MeetsDivided o'.encoding)
    (legible : ∀ p ∈ (Markup.Cursor.ofDelivery i.delivery).parts, p.2.Legible p.1)
    {R : ω → ω → Prop} (heedless : Heedless R) {w w' : ω} (hw : R w w') (s : σ) (base : String) :
    let x := load i s base w o
    let y := load i' s base w' o'
    y.result.toOption = x.result.toOption ∧ y.counts = x.counts ∧ y.store = x.store := by
  intro x y
  have : Std.Refl fun _ _ : LoadFault => True := ⟨fun _ => trivial⟩
  have akin := Input.akin_of_marked unmarked sniffed hi hi' (unnamed ▸ undivided)
    (unnamed' ▸ undivided') legible
  obtain ⟨hresult, hcounts, hstore, -⟩ := load_akin (F := fun _ _ => True)
    (heedless.unison i.gauge i'.gauge) (by rw [unnamed, unnamed']; exact akin) ho hw s base
  exact ⟨hresult.toOption, hcounts, hstore⟩

/-- Octets that are no UTF-8 stand in a text, in a comment, in names, in a tag of no element and in
a key of one. -/
theorem load_of_marked_of_legible :
    let octets := Bytes.ofString "<a" ++ 0xFF :: Bytes.ofString " b=\"" ++ 0xFE ::
      Bytes.ofString "\"><!-- " ++ 0xC3 :: Bytes.ofString " --><way id=\"1\" c" ++ 0xFF ::
      Bytes.ofString "=\"\"/>" ++ 0x80 :: Bytes.ofString "</a" ++ 0xFF :: Bytes.ofString ">"
    let input octets : Input := { delivery := .full octets }
    let x := load (input octets) ({} : Memory) "t" Unwatched.mk {}
    let y := load (input (Encoding.utf8.mark ++ octets)) ({} : Memory) "t" Unwatched.mk {}
    x.store.rows "t_way" = #[.way { id := 1 }] ∧
      y.result.toOption = x.result.toOption ∧ y.counts = x.counts ∧ y.store = x.store := by
  intro octets input x y
  have unmarked : Encoding.ofMark? octets = none := by decide +kernel
  have sniffed : Encoding.sniff octets = .utf8 := by decide +kernel
  have undivided : ¬ (input octets).MeetsDivided none := by
    refine Input.not_meetsDivided fun r hr => ?_
    cases (Delivery.toUtf8_of_unmarked unmarked sniffed).symm.trans hr
    rw [Delivery.rest_of_unmarked unmarked]
    decide +kernel
  have undivided' : ¬ (input (Encoding.utf8.mark ++ octets)).MeetsDivided none := by
    refine Input.not_meetsDivided fun r hr => ?_
    cases (Delivery.toUtf8_of_marked _ octets).symm.trans hr
    rw [Delivery.rest_of_marked _ unmarked]
    decide +kernel
  have legible : ∀ p ∈ (Markup.Cursor.ofDelivery (input octets).delivery).parts,
      p.2.Legible p.1 := by decide +kernel
  have likeStores : ({} : Options).StoreAlike {} := .refl _
  have hi : (input octets).delivery = .full octets := rfl
  have hi' : (input (Encoding.utf8.mark ++ octets)).delivery =
    .full (Encoding.utf8.mark ++ octets) := rfl
  exact ⟨by decide +kernel, load_of_marked unmarked sniffed hi hi' likeStores rfl rfl undivided
    undivided' legible heedless_unwatched trivial ({} : Memory) "t"⟩

/-- Octets that are no UTF-8 stand in a value, in the names of a tag and its end tag, and in two
keys. -/
theorem load_of_marked_illegible :
    let value := Bytes.ofString "<way id=\"1\" user=\"" ++ 0xFF :: Bytes.ofString "\"/>"
    let names := Bytes.ofString "<a" ++ 0xFF :: Bytes.ofString "></a" ++ 0xFE :: Bytes.ofString ">"
    let keys := Bytes.ofString "<way id=\"1\" a" ++ 0xFF :: Bytes.ofString "=\"\" a" ++ 0xFE ::
      Bytes.ofString "=\"\"/>"
    let x octets := load { delivery := .full octets } ({} : Memory) "t" Unwatched.mk {}
    let y octets := x (Encoding.utf8.mark ++ octets)
    (∀ octets ∈ [value, names, keys],
      Encoding.ofMark? octets = none ∧ Encoding.sniff octets = .utf8) ∧
    ((∃ fault, (x value).result = .error fault) ∧ (∃ report, (y value).result = .ok report) ∧
      (x value).counts.ways = 0 ∧ (y value).counts.ways = 1) ∧
    ((∃ fault, (x names).result = .error fault) ∧ ∃ report, (y names).result = .ok report) ∧
    (∃ report, (x keys).result = .ok report) ∧ ∃ fault, (y keys).result = .error fault := by
  refine ⟨by decide +kernel, ⟨?_, ?_, by decide +kernel, by decide +kernel⟩, ⟨?_, ?_⟩, ?_, ?_⟩
  · exact exists_error_of_isNone (by decide +kernel)
  · exact exists_ok_of_isSome (by decide +kernel)
  · exact exists_error_of_isNone (by decide +kernel)
  · exact exists_ok_of_isSome (by decide +kernel)
  · exact exists_ok_of_isSome (by decide +kernel)
  · exact exists_error_of_isNone (by decide +kernel)

end MapTables
