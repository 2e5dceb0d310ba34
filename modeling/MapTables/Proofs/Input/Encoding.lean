import MapTables.Input.Transcoding
import MapTables.Proofs.Fallible

/-!
# Encodings of deliveries

When a delivery has an encoding, and which. What the first octets of a text tell of it, they
tell of all texts that start with them.
-/

namespace MapTables

theorem encoding_eq_ok_iff {d : Delivery} {label : Option String} {e : Encoding} :
    d.encoding label = .ok e ↔ (d.pieces = [] → d.failure = none) ∧
      (label.elim (some (Encoding.sniff d.first)) Encoding.ofText?) = some e := by
  unfold Delivery.encoding
  generalize d.pieces = pieces
  generalize d.failure = failure
  cases label with
  | none => cases pieces <;> cases failure <;> simp [bind, Except.bind, pure, Except.pure]
  | some l =>
    cases hl : Encoding.ofText? l with
    | none => simp [hl, bind, Except.bind]
    | some e =>
      cases pieces <;> cases failure <;> simp [hl, bind, Except.bind, pure, Except.pure]

theorem encoding_eq_error_iff (d : Delivery) (label : Option String) :
    (∃ f, d.encoding label = .error f) ↔ (∃ l, label = some l ∧ Encoding.ofText? l = none) ∨
      (d.pieces = [] ∧ d.failure ≠ none) := by
  rw [exists_error_iff]
  simp only [encoding_eq_ok_iff]
  cases label with
  | none => simp
  | some l => cases hl : Encoding.ofText? l <;> simp [hl]

/-! ## First octets -/

theorem ofMark?_of_front {front head : Bytes} {e : Encoding} (h : front <+: head)
    (hm : Encoding.ofMark? front = some e) : Encoding.ofMark? head = some e := by
  obtain ⟨back, rfl⟩ := h
  unfold Encoding.ofMark? at hm
  split at hm
  · exact hm
  · exact hm
  · exact hm
  · cases hm

theorem after?_append {word bytes rest : Bytes} (h : Encoding.after? word bytes = some rest)
    (more : Bytes) : Encoding.after? word (bytes ++ more) = some (rest ++ more) := by
  unfold Encoding.after? at h ⊢
  split at h
  · next hw =>
    cases h
    rw [List.isPrefixOf_iff_prefix] at hw
    rw [if_pos (List.isPrefixOf_iff_prefix.mpr (hw.trans (List.prefix_append _ _))),
      List.drop_append_of_le_length hw.length_le]
  · cases h

theorem splitAtWord_eq {word bytes before behind : Bytes}
    (h : Encoding.splitAtWord word bytes = some (before, behind)) :
    bytes = before ++ word ++ behind := by
  induction bytes generalizing before with
  | nil =>
    unfold Encoding.splitAtWord at h
    split at h
    · next hw =>
      cases h
      rw [List.isEmpty_iff.mp hw]
      rfl
    · cases h
  | cons b rest ih =>
    unfold Encoding.splitAtWord at h
    split at h
    · next hw =>
      cases h
      rw [List.isPrefixOf_iff_prefix] at hw
      exact (List.prefix_iff_eq_append.mp hw).symm
    · obtain ⟨⟨before', behind'⟩, hr, he⟩ := Option.map_eq_some_iff.mp h
      cases he
      rw [ih hr]
      rfl

theorem splitAtWord_append {word bytes before behind : Bytes} (hne : word ≠ [])
    (h : Encoding.splitAtWord word bytes = some (before, behind)) (more : Bytes) :
    Encoding.splitAtWord word (bytes ++ more) = some (before, behind ++ more) := by
  induction bytes generalizing before with
  | nil =>
    have := splitAtWord_eq h
    simp [hne] at this
  | cons b rest ih =>
    have hlen := congrArg List.length (splitAtWord_eq h)
    rw [List.cons_append]
    unfold Encoding.splitAtWord at h ⊢
    split at h
    · next hw =>
      cases h
      rw [List.isPrefixOf_iff_prefix] at hw
      rw [← List.cons_append, List.drop_append_of_le_length hw.length_le, if_pos]
      exact List.isPrefixOf_iff_prefix.mpr (hw.trans (List.prefix_append (b :: rest) more))
    · next hw =>
      obtain ⟨⟨before', behind'⟩, hr, he⟩ := Option.map_eq_some_iff.mp h
      cases he
      -- The word is found further on, so it is not cut off here.
      rw [if_neg, ih hr]
      · rfl
      · intro hw'
        rw [List.isPrefixOf_iff_prefix] at hw hw'
        refine hw (List.prefix_of_prefix_length_le hw' (List.prefix_append (b :: rest) more) ?_)
        simp only [List.length_append, List.length_cons] at hlen ⊢
        omega

theorem octets_xml : Bytes.ofString "<?xml" = [0x3C, 0x3F, 0x78, 0x6D, 0x6C] := by decide +kernel

theorem declaredLabel?_append {front label : Bytes} (h : Encoding.declaredLabel? front = some label)
    (back : Bytes) : Encoding.declaredLabel? (front ++ back) = some label := by
  unfold Encoding.declaredLabel? at h ⊢
  obtain ⟨rest, hrest, h⟩ := Option.bind_eq_some_iff.mp h
  obtain ⟨⟨declaration, behind⟩, hd, h⟩ := Option.bind_eq_some_iff.mp h
  refine Option.bind_eq_some_iff.mpr ⟨rest ++ back, after?_append hrest back, ?_⟩
  refine Option.bind_eq_some_iff.mpr ⟨(declaration, behind ++ back), ?_, h⟩
  exact splitAtWord_append (by decide +kernel) hd back

theorem sniff_of_mark {head : Bytes} {e : Encoding} (h : Encoding.ofMark? head = some e) :
    Encoding.sniff head = e := by
  unfold Encoding.sniff
  simp only [h]

theorem sniff_of_declared {head : Bytes} {e : Encoding} (h : Encoding.declared? head = some e) :
    Encoding.sniff head = e := by
  obtain ⟨label, hl, -⟩ := Option.bind_eq_some_iff.mp h
  unfold Encoding.declaredLabel? at hl
  obtain ⟨rest, hrest, -⟩ := Option.bind_eq_some_iff.mp hl
  unfold Encoding.after? at hrest
  split at hrest
  · next hw =>
    rw [List.isPrefixOf_iff_prefix, octets_xml] at hw
    obtain ⟨more, rfl⟩ := hw
    change (Encoding.declared? _).getD .utf8 = e
    rw [h]
    rfl
  · cases hrest

theorem declared_of_front {front head : Bytes} {e : Encoding} (h : front <+: head)
    (hd : Encoding.declared? front = some e) :
    Encoding.declared? head = some e ∧ Encoding.ofMark? head = none := by
  obtain ⟨back, rfl⟩ := h
  obtain ⟨label, hl, he⟩ := Option.bind_eq_some_iff.mp hd
  refine ⟨Option.bind_eq_some_iff.mpr ⟨label, declaredLabel?_append hl back, he⟩, ?_⟩
  unfold Encoding.declaredLabel? at hl
  obtain ⟨rest, hrest, -⟩ := Option.bind_eq_some_iff.mp hl
  unfold Encoding.after? at hrest
  split at hrest
  · next hw =>
    rw [List.isPrefixOf_iff_prefix, octets_xml] at hw
    obtain ⟨more, rfl⟩ := hw
    rfl
  · cases hrest

theorem sniff_of_front {front head : Bytes} (h : front <+: head)
    (hs : Encoding.sniff head = .utf8) : Encoding.sniff front = .utf8 := by
  cases hm : Encoding.ofMark? front with
  | some e =>
    rw [sniff_of_mark hm, ← hs, sniff_of_mark (ofMark?_of_front h hm)]
  | none =>
    obtain ⟨back, rfl⟩ := h
    unfold Encoding.sniff
    simp only [hm]
    split
    · cases hs
    · cases hs
    · cases hd : Encoding.declared? front with
      | none => rfl
      | some e =>
        rw [sniff_of_declared (declared_of_front (List.prefix_append _ _) hd).1] at hs
        rw [hs]
        rfl

end MapTables
