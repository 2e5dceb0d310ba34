import MapTables.Proofs.Input.Octets
import MapTables.Proofs.Text.Utf8

/-!
# Texts in other encodings

A text may be written in UTF-16, or with one octet for each character. The decoder reads it back.
-/

namespace MapTables

namespace Utf16

/-- The units of a character. One beyond U+FFFF has a pair of them. -/
def units (c : Char) : List Nat :=
  if c.toNat < 0x10000 then [c.toNat]
  else [0xD800 + (c.toNat - 0x10000) / 0x400, 0xDC00 + (c.toNat - 0x10000) % 0x400]

def unitOctets (bigEndian : Bool) (u : Nat) : Bytes :=
  if bigEndian then [UInt8.ofNat (u / 256), UInt8.ofNat (u % 256)]
  else [UInt8.ofNat (u % 256), UInt8.ofNat (u / 256)]

def encodeChar (bigEndian : Bool) (c : Char) : Bytes := (units c).flatMap (unitOctets bigEndian)

def encode (bigEndian : Bool) (cs : List Char) : Bytes := cs.flatMap (encodeChar bigEndian)

def encoding (bigEndian : Bool) : Encoding := if bigEndian then .utf16BE else .utf16LE

theorem ofEncoding_encoding (foreign : Encoding → Foreign) (big : Bool) :
    Decoder.ofEncoding foreign (encoding big) = .utf16 big none none := by
  cases big <;> rfl

theorem length_unitOctets (big : Bool) (u : Nat) : (unitOctets big u).length = 2 := by
  cases big <;> rfl

theorem length_encode {big : Bool} {cs : List Char} (h : ∀ c ∈ cs, c.toNat < 0x10000) :
    (encode big cs).length = 2 * cs.length := by
  induction cs with
  | nil => rfl
  | cons c cs ih =>
    have hc : encodeChar big c = unitOctets big c.toNat := by
      rw [encodeChar, units, if_pos (h c List.mem_cons_self), List.flatMap_singleton]
    have hcs : (encode big cs).length = 2 * cs.length :=
      ih fun x hx => h x (List.mem_cons_of_mem c hx)
    rw [encode, List.flatMap_cons, List.length_append, hc, length_unitOctets, ← encode, hcs,
      List.length_cons]
    omega

end Utf16

namespace Encoding

def octetChar (e : Encoding) (b : UInt8) : Char :=
  if e = .userDefined then userDefinedChar b else tableChar e.upperTable b

/-- The octet of a character. An octet that is read as U+FFFD does not write it. -/
def octet? (e : Encoding) (c : Char) : Option UInt8 :=
  if c.toNat < 0x80 then some (UInt8.ofNat c.toNat)
  else if c = Decoder.unknown then none
  else ((List.range' 0x80 0x80).map UInt8.ofNat).find? fun b => e.octetChar b = c

def encode? (e : Encoding) (cs : List Char) : Option Bytes := cs.mapM e.octet?

theorem octetChar_ascii (e : Encoding) {c : Char} (h : c.toNat < 0x80) :
    e.octetChar (UInt8.ofNat c.toNat) = c := by
  have hb : (UInt8.ofNat c.toNat).toNat = c.toNat := Utf8.toNat_ofNat (by omega)
  have hlt : UInt8.ofNat c.toNat < 0x80 := by simpa [UInt8.lt_iff_toNat_lt, hb] using h
  unfold octetChar userDefinedChar tableChar
  rw [if_pos hlt, if_pos hlt, hb, Char.ofNat_toNat, ite_self]

theorem octetChar_of_octet? {e : Encoding} {c : Char} {b : UInt8} (h : e.octet? c = some b) :
    e.octetChar b = c := by
  unfold octet? at h
  split at h
  · next hc =>
    cases h
    exact e.octetChar_ascii hc
  · split at h
    · cases h
    · simpa using List.find?_some h

theorem encode?_cons {e : Encoding} {c : Char} {cs : List Char} {bytes : Bytes}
    (h : e.encode? (c :: cs) = some bytes) :
    ∃ b rest, e.octet? c = some b ∧ e.encode? cs = some rest ∧ bytes = b :: rest := by
  unfold encode? at h
  rw [List.mapM_cons] at h
  obtain ⟨b, hb, h⟩ := Option.bind_eq_some_iff.mp h
  obtain ⟨rest, hrest, h⟩ := Option.bind_eq_some_iff.mp h
  cases h
  exact ⟨b, rest, hb, hrest, rfl⟩

theorem ascii_of_encode? {e : Encoding} {ascii : Bytes} (ha : ∀ b ∈ ascii, b.toNat < 0x80)
    {cs : List Char} {bytes : Bytes} (h : e.encode? cs = some bytes)
    (front : ascii <+: Bytes.ofChars cs) : ascii <+: bytes := by
  induction ascii generalizing cs bytes with
  | nil => exact List.nil_prefix
  | cons b ascii ih =>
    have hb := ha b List.mem_cons_self
    cases cs with
    | nil => cases List.prefix_nil.mp front
    | cons c cs =>
      obtain ⟨b', rest, hb', hrest, rfl⟩ := encode?_cons h
      have hc : Bytes.ofChars (c :: cs) = String.utf8EncodeChar c ++ Bytes.ofChars cs := rfl
      obtain ⟨hwrite, hnum⟩ := Utf8.encode_of_ascii hb (hc ▸ front)
      rw [hc, hwrite, List.singleton_append, List.cons_prefix_cons] at front
      rw [octet?, if_pos (hnum ▸ hb), hnum] at hb'
      rw [List.cons_prefix_cons]
      refine ⟨?_, ih (fun x hx => ha x (List.mem_cons_of_mem _ hx)) hrest front.2⟩
      simpa using hb'

end Encoding

namespace Decoder

theorem run_flatMap {d : Decoder} {write : Char → Bytes} {cs : List Char}
    (h : ∀ c ∈ cs, d.run (write c) = (d, #[c])) : d.run (cs.flatMap write) = (d, cs.toArray) := by
  induction cs with
  | nil => rfl
  | cons c cs ih =>
    rw [List.flatMap_cons, run_append, h c List.mem_cons_self,
      ih fun c hc => h c (List.mem_cons_of_mem _ hc)]
    simp

/-! ## UTF-16 -/

theorem unitOf_unitOctets {big : Bool} {u : Nat} (hu : u < 0x10000) (s : Option Nat) :
    (Decoder.utf16 big none s).run (Utf16.unitOctets big u) =
      (.utf16 big none (unit s u).1, (unit s u).2.toArray) := by
  have hhigh : (UInt8.ofNat (u / 256)).toNat = u / 256 := Utf8.toNat_ofNat (by omega)
  have hlow : (UInt8.ofNat (u % 256)).toNat = u % 256 := Utf8.toNat_ofNat (by omega)
  have hsum : u / 256 * 256 + u % 256 = u := by omega
  unfold Utf16.unitOctets
  cases big with
  | true => simp [run, advance, step, unitOf, hhigh, hlow, hsum]
  | false => simp [run, advance, step, unitOf, hhigh, hlow, hsum]

theorem unit_single {n : Nat} (h : n < 0xD800 ∨ 0xDFFF < n) : unit none n = (none, [Char.ofNat n]) := by
  have hhigh : isHighSurrogate n = false := by
    simp only [isHighSurrogate, Bool.and_eq_false_iff, decide_eq_false_iff_not]
    omega
  have hlow : isLowSurrogate n = false := by
    simp only [isLowSurrogate, Bool.and_eq_false_iff, decide_eq_false_iff_not]
    omega
  unfold unit freshUnit
  simp only [hhigh, hlow, Bool.false_eq_true, if_false]

/-- The two units of a pair give the bits of a character above and below the tenth. -/
theorem unit_pair {high low : Nat} (hh : high < 0x400) (hl : low < 0x400) :
    unit none (0xD800 + high) = (some (0xD800 + high), []) ∧
      unit (some (0xD800 + high)) (0xDC00 + low) =
        (none, [Char.ofNat (0x10000 + high * 0x400 + low)]) := by
  have hhigh : isHighSurrogate (0xD800 + high) = true := by
    simp only [isHighSurrogate, Bool.and_eq_true, decide_eq_true_eq]
    omega
  have hlow : isLowSurrogate (0xDC00 + low) = true := by
    simp only [isLowSurrogate, Bool.and_eq_true, decide_eq_true_eq]
    omega
  unfold unit freshUnit
  simp only [hhigh, hlow, if_true, Nat.add_sub_cancel_left, and_self]

theorem run_encodeChar (big : Bool) (c : Char) :
    (Decoder.utf16 big none none).run (Utf16.encodeChar big c) = (.utf16 big none none, #[c]) := by
  have hvalid : c.toNat < 0xD800 ∨ 0xDFFF < c.toNat ∧ c.toNat < 0x110000 := c.valid
  have hc : Char.ofNat c.toNat = c := Char.ofNat_toNat c
  unfold Utf16.encodeChar Utf16.units
  split
  · next hn =>
    rw [List.flatMap_singleton, unitOf_unitOctets hn, unit_single (by omega), hc]
  · next hn =>
    obtain ⟨hfirst, hsecond⟩ := unit_pair
      (show (c.toNat - 0x10000) / 0x400 < 0x400 by omega)
      (show (c.toNat - 0x10000) % 0x400 < 0x400 by omega)
    have hsum : 0x10000 + (c.toNat - 0x10000) / 0x400 * 0x400 + (c.toNat - 0x10000) % 0x400 =
      c.toNat := by omega
    rw [List.flatMap_cons, List.flatMap_singleton, run_append, unitOf_unitOctets (by omega),
      hfirst, unitOf_unitOctets (by omega), hsecond, hsum, hc]
    simp

theorem run_utf16 (big : Bool) (cs : List Char) :
    (Decoder.utf16 big none none).run (Utf16.encode big cs) =
      (.utf16 big none none, cs.toArray) :=
  run_flatMap fun c _ => run_encodeChar big c

theorem text_utf16 (big : Bool) (cs : List Char) :
    (Decoder.utf16 big none none).text (Utf16.encode big cs) = cs := by
  rw [text_eq, run_utf16]
  simp [finish]

/-! ## One octet for each character -/

variable {foreign : Encoding → Foreign} {e : Encoding}

theorem ofEncoding_single (single : e.isSingleByte) :
    (e = .userDefined ∧ ofEncoding foreign e = .userDefined) ∨
      (e ≠ .userDefined ∧ ofEncoding foreign e = .table e.upperTable) := by
  unfold ofEncoding
  split
  · cases single
  · cases single
  · cases single
  · exact Or.inl ⟨rfl, rfl⟩
  · cases single
  · next hne _ => exact Or.inr ⟨hne, if_pos single⟩

theorem step_single (single : e.isSingleByte) (b : UInt8) :
    (ofEncoding foreign e).step b = (ofEncoding foreign e, [e.octetChar b]) := by
  unfold Encoding.octetChar
  rcases ofEncoding_single single with ⟨he, hd⟩ | ⟨he, hd⟩
  · rw [hd, if_pos he]
    rfl
  · rw [hd, if_neg he]
    rfl

theorem finish_single (single : e.isSingleByte) : (ofEncoding foreign e).finish = [] := by
  rcases ofEncoding_single single with ⟨-, hd⟩ | ⟨-, hd⟩
  · rw [hd]
    rfl
  · rw [hd]
    rfl

theorem run_encode? (single : e.isSingleByte) {cs : List Char} {bytes : Bytes}
    (h : e.encode? cs = some bytes) :
    (ofEncoding foreign e).run bytes = (ofEncoding foreign e, cs.toArray) := by
  induction cs generalizing bytes with
  | nil =>
    cases h
    rfl
  | cons c cs ih =>
    obtain ⟨b, rest, hb, hrest, rfl⟩ := Encoding.encode?_cons h
    rw [run_cons, step_single single, Encoding.octetChar_of_octet? hb, ih hrest]
    simp

theorem text_encode? (single : e.isSingleByte) {cs : List Char} {bytes : Bytes}
    (h : e.encode? cs = some bytes) : (ofEncoding foreign e).text bytes = cs := by
  rw [text_eq, run_encode? single h, finish_single single, List.append_nil]

end Decoder

end MapTables
