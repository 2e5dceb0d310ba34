import Mathlib.Data.List.TakeWhile
import MapTables.Proofs.Input.Forks
import MapTables.Proofs.Markup.Complete
import MapTables.Proofs.Markup.Written
import MapTables.Proofs.Text.Utf8

/-!
# Written names

What octets stand in a written name, and which element it is a name of.
-/

namespace MapTables.Markup

variable {b : UInt8} {s : Bytes} {name base : String}

/-! ## Octets of a name -/

theorem isSpace_iff : Tag.isSpace b = true ↔ b ∈ [0x20, 0x09, 0x0A, 0x0D] := by
  simp [Tag.isSpace, or_assoc]

theorem IsBlank.isSpace (h : IsBlank s) : ∀ b ∈ s, Tag.isSpace b = true :=
  fun b hb => isSpace_iff.mpr (h b hb)

/-- Octets that stand in no name. -/
def marks : Bytes := [0x20, 0x09, 0x0A, 0x0D, 0x21, 0x22, 0x27, 0x2F, 0x3D, 0x3E, 0x3F]

theorem marks_apart : ∀ b ∈ marks, b.toNat < 0x80 ∧
    ¬ IsNameChar (Char.ofNat b.toNat) ∧ Char.ofNat b.toNat ≠ ':' := by decide +kernel

theorem IsTagName.notMem (h : IsTagName name) (hb : b ∈ marks) : b ∉ Bytes.ofString name := by
  intro hmem
  obtain ⟨hlow, hchar, hcolon⟩ := marks_apart b hb
  rw [Bytes.ofString_eq] at hmem
  exact (h.2 _ (Utf8.mem_of_mem_ofChars hlow hmem)).elim hchar hcolon

theorem IsName.isTagName (h : IsName name) : IsTagName name := ⟨h.1, fun c hc => Or.inl (h.2 c hc)⟩

theorem colon_notMem (h : ':' ∉ name.toList) : 0x3A ∉ Bytes.ofString name := fun hmem => by
  rw [Bytes.ofString_eq] at hmem
  exact h (Utf8.mem_of_mem_ofChars (by decide) hmem)

theorem ofString_ne_nil (h : name ≠ "") : Bytes.ofString name ≠ [] := fun he =>
  h (Utf8.ofString_injective (he.trans (by decide +kernel)))

theorem IsTagName.not_isSpace (h : IsTagName name) :
    ∀ b ∈ Bytes.ofString name, Tag.isSpace b = false := by
  intro b hb
  rw [← Bool.not_eq_true, isSpace_iff]
  intro hs
  refine h.notMem ?_ hb
  simp only [List.mem_cons, List.not_mem_nil, or_false] at hs
  rcases hs with rfl | rfl | rfl | rfl <;> decide

/-! ## Local names -/

theorem ofString_append (s t : String) :
    Bytes.ofString (s ++ t) = Bytes.ofString s ++ Bytes.ofString t := by
  simp only [Bytes.ofString_eq, String.toList_append, ofChars_append]

theorem HasLocalName.localName (h : HasLocalName name base) :
    Tag.localName (Bytes.ofString name) = Bytes.ofString base := by
  unfold Tag.localName
  rcases h with ⟨hcolon, rfl⟩ | ⟨scope, hcolon, rfl⟩
  · have hd : (Bytes.ofString base).dropWhile (· != 0x3A) = [] := by
      rw [List.dropWhile_eq_nil_iff]
      intro b hb
      rw [bne_iff_ne]
      rintro rfl
      exact colon_notMem hcolon hb
    rw [hd]
  · have hs : ∀ b ∈ Bytes.ofString scope, (b != 0x3A) = true := by
      intro b hb
      rw [bne_iff_ne]
      rintro rfl
      exact colon_notMem hcolon hb
    have hd := (span_append (c := 0x3A) hs (by decide) (Bytes.ofString base)).2
    have hcons : Bytes.ofString ":" = [0x3A] := by decide +kernel
    rw [ofString_append, ofString_append, List.append_assoc, hcons, List.singleton_append, hd]

theorem IsName.hasLocalName (h : IsName name) : HasLocalName name name :=
  Or.inl ⟨fun hc => absurd (h.2 _ hc) (by decide), rfl⟩

theorem exists_hasLocalName (name : String) : ∃ base, HasLocalName name base := by
  by_cases h : ':' ∈ name.toList
  · obtain ⟨scope, base, hn, hs⟩ := List.eq_append_cons_of_mem h
    refine ⟨String.ofList base, Or.inr ⟨String.ofList scope, by simpa using hs, ?_⟩⟩
    rw [← String.toList_inj, hn]
    simp
  · exact ⟨name, Or.inl ⟨h, rfl⟩⟩

theorem map_lowerOctet_encode (c : Char) :
    (String.utf8EncodeChar c).map Element.lowerOctet = String.utf8EncodeChar c.toLower := by
  by_cases hc : 0x41 ≤ c.toNat ∧ c.toNat ≤ 0x5A
  · have upper : ∀ n, n < 0x5B → 0x41 ≤ n →
        (String.utf8EncodeChar (Char.ofNat n)).map Element.lowerOctet =
          String.utf8EncodeChar (Char.ofNat n).toLower := by decide +kernel
    have := upper c.toNat (by omega) hc.1
    rwa [Char.ofNat_toNat] at this
  · have hlower : c.toLower = c := by
      unfold Char.toLower
      rw [dif_neg]
      exact hc
    -- An octet with a case would be the character itself.
    have hsame (b : UInt8) (hb : b ∈ String.utf8EncodeChar c) : Element.lowerOctet b = b := by
      unfold Element.lowerOctet
      rw [if_neg]
      rintro ⟨hl, hh⟩
      rw [UInt8.le_iff_toNat_le] at hl hh
      have hh : b.toNat ≤ 0x5A := hh
      have := Utf8.toNat_of_mem_encode (by omega) hb
      exact hc (this ▸ ⟨hl, hh⟩)
    rw [hlower, List.map_congr_left hsame, List.map_id']

theorem map_lowerOctet (s : String) :
    (Bytes.ofString s).map Element.lowerOctet = Bytes.ofString s.toLower := by
  rw [Bytes.ofString_eq, Bytes.ofString_eq, Bytes.ofChars, Bytes.ofChars, List.map_flatMap,
    toList_toLower, List.flatMap_map]
  simp only [map_lowerOctet_encode]

theorem ofName?_eq_some_iff {e : Element} {octets : Bytes} :
    Element.ofName? octets = some e ↔ octets.map Element.lowerOctet = Bytes.ofString e.word := by
  constructor
  · exact fun h => by simpa using List.find?_some h
  · intro h
    unfold Element.ofName?
    rw [h]
    cases e <;> decide +kernel

theorem ofName?_localName {e : Element} :
    Element.ofName? (Tag.localName (Bytes.ofString name)) = some e ↔ Denotes name e := by
  rw [ofName?_eq_some_iff]
  constructor
  · intro h
    obtain ⟨base, hbase⟩ := exists_hasLocalName name
    rw [hbase.localName, map_lowerOctet] at h
    exact ⟨base, hbase, Utf8.ofString_injective h⟩
  · rintro ⟨base, hbase, hword⟩
    rw [hbase.localName, map_lowerOctet, hword]

end MapTables.Markup
