import MapTables.Encoding.Decoder

/-!
# Texts read back from their octets

The machine reports a written text as the characters it was written from, so both readings give
the text again. An octet below 0x80 is a character by itself and part of no other.
-/

namespace MapTables

/-! ## Octets of a text -/

theorem Bytes.toList_loop (bs : ByteArray) (i : Nat) (r : Bytes) :
    ByteArray.toList.loop bs i r = r.reverse ++ bs.data.toList.drop i := by
  fun_induction ByteArray.toList.loop bs i r with
  | case1 i r h ih =>
    have hd : bs.data.toList.drop i = bs.get! i :: bs.data.toList.drop (i + 1) := by
      rw [List.drop_eq_getElem_cons (by simpa using h)]
      simp [ByteArray.get!, getElem!_pos bs.data i h]
    rw [ih, hd, List.reverse_cons, List.append_assoc]
    rfl
  | case2 i r h => rw [List.drop_eq_nil_of_le (by simpa using h), List.append_nil]

theorem Bytes.ofString_eq (s : String) : Bytes.ofString s = Bytes.ofChars s.toList := by
  rw [Bytes.ofString, ByteArray.toList, Bytes.toList_loop, String.toUTF8_eq_toByteArray,
    ← String.utf8Encode_toList, List.utf8Encode, List.toList_data_toByteArray]
  rfl

namespace Utf8

variable {b : UInt8} {p : Partial} {n : Nat}

/-! ## One character -/

theorem toNat_ofNat (h : n < 256) : (UInt8.ofNat n).toNat = n := UInt8.toNat_ofNat_of_lt' h

theorem first_two (hl : 0xC2 ≤ b.toNat) (hh : b.toNat < 0xE0) :
    first b = (some ⟨1, b.toNat - 0xC0, 1, 0x80, 0xBF⟩, []) := by
  have h1 : ¬ b < 0x80 := by simp [UInt8.lt_iff_toNat_lt]; omega
  have h2 : ¬ b < 0xC2 := by simp [UInt8.lt_iff_toNat_lt]; omega
  have h3 : b < 0xE0 := by simpa [UInt8.lt_iff_toNat_lt] using hh
  rw [first, if_neg h1, if_neg h2, if_pos h3]

theorem first_three (hl : 0xE0 ≤ b.toNat) (hh : b.toNat < 0xF0) :
    first b = (some ⟨1, b.toNat - 0xE0, 2, if b = 0xE0 then 0xA0 else 0x80,
      if b = 0xED then 0x9F else 0xBF⟩, []) := by
  have h1 : ¬ b < 0x80 := by simp [UInt8.lt_iff_toNat_lt]; omega
  have h2 : ¬ b < 0xC2 := by simp [UInt8.lt_iff_toNat_lt]; omega
  have h3 : ¬ b < 0xE0 := by simp [UInt8.lt_iff_toNat_lt]; omega
  have h4 : b < 0xF0 := by simpa [UInt8.lt_iff_toNat_lt] using hh
  rw [first, if_neg h1, if_neg h2, if_neg h3, if_pos h4]

theorem first_four (hl : 0xF0 ≤ b.toNat) (hh : b.toNat < 0xF5) :
    first b = (some ⟨1, b.toNat - 0xF0, 3, if b = 0xF0 then 0x90 else 0x80,
      if b = 0xF4 then 0x8F else 0xBF⟩, []) := by
  have h1 : ¬ b < 0x80 := by simp [UInt8.lt_iff_toNat_lt]; omega
  have h2 : ¬ b < 0xC2 := by simp [UInt8.lt_iff_toNat_lt]; omega
  have h3 : ¬ b < 0xE0 := by simp [UInt8.lt_iff_toNat_lt]; omega
  have h4 : ¬ b < 0xF0 := by simp [UInt8.lt_iff_toNat_lt]; omega
  have h5 : b < 0xF5 := by simpa [UInt8.lt_iff_toNat_lt] using hh
  rw [first, if_neg h1, if_neg h2, if_neg h3, if_neg h4, if_pos h5]

theorem toNat_ite {x y z : UInt8} {P : Nat → Prop} (hy : b.toNat = x.toNat → P y.toNat)
    (hz : P z.toNat) : P (if b = x then y else z).toNat := by
  split
  · next h => exact hy (congrArg UInt8.toNat h)
  · exact hz

section Tail

variable {seen bits lacking : Nat} {low high : UInt8} {pieces : Array Piece}

theorem step_within (hn : n < 64) (hl : low.toNat ≤ n + 128) (hh : n + 128 ≤ high.toNat) :
    step (some ⟨seen, bits, lacking, low, high⟩) (UInt8.ofNat (n + 128)) =
      if lacking ≤ 1 then (none, [.char (Char.ofNat (bits * 64 + n))])
      else (some ⟨seen + 1, bits * 64 + n, lacking - 1, 0x80, 0xBF⟩, []) := by
  have hb : (UInt8.ofNat (n + 128)).toNat = n + 128 := toNat_ofNat (by omega)
  have hin : low ≤ UInt8.ofNat (n + 128) ∧ UInt8.ofNat (n + 128) ≤ high := by
    rw [UInt8.le_iff_toNat_le, UInt8.le_iff_toNat_le, hb]
    exact ⟨hl, hh⟩
  rw [step, if_pos hin, hb]
  simp

theorem advance_more (hn : n < 64) (hl : low.toNat ≤ n + 128) (hh : n + 128 ≤ high.toNat) :
    advance (some ⟨seen, bits, lacking + 2, low, high⟩, pieces) (UInt8.ofNat (n + 128)) =
      (some ⟨seen + 1, bits * 64 + n, lacking + 1, 0x80, 0xBF⟩, pieces) := by
  rw [advance, step_within hn hl hh, if_neg (by omega)]
  simp

theorem advance_last (hn : n < 64) (hl : low.toNat ≤ n + 128) (hh : n + 128 ≤ high.toNat) :
    advance (some ⟨seen, bits, 1, low, high⟩, pieces) (UInt8.ofNat (n + 128)) =
      (none, pieces.push (.char (Char.ofNat (bits * 64 + n)))) := by
  rw [advance, step_within hn hl hh, if_pos (Nat.le_refl 1)]
  simp

end Tail

/-! A character takes one octet to four, by its number. -/

theorem advance_begins {q : Partial} (h : first b = (some q, [])) (pieces : Array Piece) :
    advance (none, pieces) b = (some q, pieces) := by
  rw [advance, step, h]
  simp

theorem foldl_advance_one (h : n < 0x80) (pieces : Array Piece) :
    [UInt8.ofNat n].foldl advance (none, pieces) = (none, pieces.push (.char (Char.ofNat n))) := by
  have hb := toNat_ofNat (show n < 256 by omega)
  have hlt : UInt8.ofNat n < 0x80 := by simpa [UInt8.lt_iff_toNat_lt, hb] using h
  simp [advance, step, first, hlt, hb]

theorem foldl_advance_two (hl : 0x80 ≤ n) (hh : n < 0x800) (pieces : Array Piece) :
    [UInt8.ofNat (n / 64 % 32 + 192), UInt8.ofNat (n % 64 + 128)].foldl advance (none, pieces) =
      (none, pieces.push (.char (Char.ofNat n))) := by
  have hb := toNat_ofNat (show n / 64 % 32 + 192 < 256 by omega)
  have hbits : (n / 64 % 32 + 192 - 0xC0) * 64 + n % 64 = n := by omega
  rw [List.foldl_cons, List.foldl_cons, advance_begins (first_two (by omega) (by omega)), hb,
    advance_last (by omega) (by simp) (by simp; omega), hbits]
  rfl

/-- The bounds of the second octet rule out what is too short and what is no character. -/
theorem foldl_advance_three (hl : 0x800 ≤ n) (hh : n < 0x10000) (hn : n < 0xD800 ∨ 0xDFFF < n)
    (pieces : Array Piece) :
    [UInt8.ofNat (n / 4096 % 16 + 224), UInt8.ofNat (n / 64 % 64 + 128),
      UInt8.ofNat (n % 64 + 128)].foldl advance (none, pieces) =
        (none, pieces.push (.char (Char.ofNat n))) := by
  have hb := toNat_ofNat (show n / 4096 % 16 + 224 < 256 by omega)
  have hbits : ((n / 4096 % 16 + 224 - 0xE0) * 64 + n / 64 % 64) * 64 + n % 64 = n := by omega
  rw [List.foldl_cons, List.foldl_cons, List.foldl_cons,
    advance_begins (first_three (by omega) (by omega)), hb, advance_more (by omega),
    advance_last (by omega) (by simp) (by simp; omega), hbits]
  · rfl
  · refine toNat_ite (P := (· ≤ n / 64 % 64 + 128)) (fun h => ?_) (by simp)
    rw [hb] at h
    simp at h ⊢
    omega
  · refine toNat_ite (fun h => ?_) (by simp; omega)
    rw [hb] at h
    simp at h ⊢
    omega

theorem foldl_advance_four (hl : 0x10000 ≤ n) (hh : n < 0x110000) (pieces : Array Piece) :
    [UInt8.ofNat (n / 262144 % 8 + 240), UInt8.ofNat (n / 4096 % 64 + 128),
      UInt8.ofNat (n / 64 % 64 + 128), UInt8.ofNat (n % 64 + 128)].foldl advance (none, pieces) =
        (none, pieces.push (.char (Char.ofNat n))) := by
  have hb := toNat_ofNat (show n / 262144 % 8 + 240 < 256 by omega)
  have hbits : (((n / 262144 % 8 + 240 - 0xF0) * 64 + n / 4096 % 64) * 64 + n / 64 % 64) * 64 +
    n % 64 = n := by omega
  rw [List.foldl_cons, List.foldl_cons, List.foldl_cons, List.foldl_cons,
    advance_begins (first_four (by omega) (by omega)), hb, advance_more (by omega),
    advance_more (by omega) (by simp) (by simp; omega),
    advance_last (by omega) (by simp) (by simp; omega), hbits]
  · rfl
  · refine toNat_ite (P := (· ≤ n / 4096 % 64 + 128)) (fun h => ?_) (by simp)
    rw [hb] at h
    simp at h ⊢
    omega
  · refine toNat_ite (fun h => ?_) (by simp; omega)
    rw [hb] at h
    simp at h ⊢
    omega

theorem foldl_advance_encode (c : Char) (pieces : Array Piece) :
    (String.utf8EncodeChar c).foldl advance (none, pieces) = (none, pieces.push (.char c)) := by
  have hvalid : c.val.toNat < 0xD800 ∨ 0xDFFF < c.val.toNat ∧ c.val.toNat < 0x110000 := c.valid
  have hc : Char.ofNat c.val.toNat = c := Char.ofNat_toNat c
  unfold String.utf8EncodeChar
  generalize c.val.toNat = n at hc hvalid ⊢
  subst hc
  simp only
  split
  · exact foldl_advance_one (by omega) pieces
  split
  · exact foldl_advance_two (by omega) (by omega) pieces
  split
  · exact foldl_advance_three (by omega) (by omega) (hvalid.imp_right And.left) pieces
  · exact foldl_advance_four (by omega) (by omega) pieces

theorem report_ofChars (cs : List Char) :
    report (Bytes.ofChars cs) = (none, (cs.map Piece.char).toArray) := by
  suffices h : ∀ pieces : Array Piece, (Bytes.ofChars cs).foldl advance (none, pieces) =
      (none, pieces ++ cs.map Piece.char) by
    rw [report, h #[]]
    simp
  induction cs with
  | nil => simp [Bytes.ofChars]
  | cons c cs ih =>
    intro pieces
    have hcons : Bytes.ofChars (c :: cs) = String.utf8EncodeChar c ++ Bytes.ofChars cs := rfl
    rw [hcons, List.foldl_append, foldl_advance_encode, ih]
    simp

/-! ## Texts -/

theorem firstBad_chars (cs : List Char) (index : Nat) :
    (firstBad index (cs.map Piece.char)).2 = none := by
  induction cs generalizing index with
  | nil => rfl
  | cons c cs ih => exact ih _

theorem shown_chars (cs : List Char) : (cs.map Piece.char).map Piece.shown = cs := by
  rw [List.map_map]
  exact List.map_id cs

theorem decode_ofString (s : String) : decode (Bytes.ofString s) = .ok s := by
  have hbad := firstBad_chars s.toList 0
  rw [Bytes.ofString_eq, decode, report_ofChars]
  simp only
  generalize firstBad 0 (s.toList.map Piece.char) = bad at hbad ⊢
  obtain ⟨index, bad⟩ := bad
  cases hbad
  rw [shown_chars, String.ofList_toList]

theorem decodeLossy_ofString (s : String) : decodeLossy (Bytes.ofString s) = s := by
  rw [Bytes.ofString_eq, decodeLossy, report_ofChars]
  simp only [Option.isSome_none, Bool.false_eq_true, if_false]
  rw [shown_chars, String.ofList_toList]

theorem ofString_injective : Function.Injective Bytes.ofString := fun s t h => by
  have := congrArg decodeLossy h
  rwa [decodeLossy_ofString, decodeLossy_ofString] at this

/-! ## Octets that are characters -/

theorem toNat_of_mem_encode {c : Char} (hb : b.toNat < 0x80) (h : b ∈ String.utf8EncodeChar c) :
    c.toNat = b.toNat := by
  have high {n : Nat} (hl : 128 ≤ n) (hh : n < 256) : b ≠ UInt8.ofNat n := by
    rintro rfl
    rw [toNat_ofNat hh] at hb
    omega
  have hn : c.toNat = c.val.toNat := rfl
  unfold String.utf8EncodeChar at h
  rw [hn]
  generalize c.val.toNat = n at h ⊢
  simp only at h
  split at h
  · rw [List.mem_singleton.mp h, toNat_ofNat (by omega)]
  split at h
  · simp only [List.mem_cons, List.not_mem_nil, or_false] at h
    rcases h with h | h <;> exact absurd h (high (by omega) (by omega))
  split at h
  · simp only [List.mem_cons, List.not_mem_nil, or_false] at h
    rcases h with h | h | h <;> exact absurd h (high (by omega) (by omega))
  · simp only [List.mem_cons, List.not_mem_nil, or_false] at h
    rcases h with h | h | h | h <;> exact absurd h (high (by omega) (by omega))

theorem encode_of_ascii {c : Char} {front more : Bytes} (hb : b.toNat < 0x80)
    (h : b :: front <+: String.utf8EncodeChar c ++ more) :
    String.utf8EncodeChar c = [b] ∧ c.toNat = b.toNat := by
  obtain ⟨x, tail, hx⟩ := List.exists_cons_of_ne_nil
    (List.length_pos_iff.mp (by rw [String.length_utf8EncodeChar]; exact c.utf8Size_pos))
  rw [hx, List.cons_append] at h
  obtain rfl := (List.cons_prefix_cons.mp h).1
  have hc : c.toNat = b.toNat := toNat_of_mem_encode hb (hx ▸ List.mem_cons_self)
  refine ⟨?_, hc⟩
  have hlt : c.val.toNat ≤ 127 := by
    rw [show c.val.toNat = b.toNat from hc]
    omega
  rw [String.utf8EncodeChar]
  simp only [hlt, if_true]
  rw [show c.val.toNat = b.toNat from hc, UInt8.ofNat_toNat]

theorem mem_of_mem_ofChars {cs : List Char} (hb : b.toNat < 0x80) (h : b ∈ Bytes.ofChars cs) :
    Char.ofNat b.toNat ∈ cs := by
  obtain ⟨c, hc, hmem⟩ := List.mem_flatMap.mp h
  rw [← toNat_of_mem_encode hb hmem, Char.ofNat_toNat]
  exact hc

end Utf8
end MapTables
