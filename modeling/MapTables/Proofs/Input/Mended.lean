import MapTables.Proofs.Input.Encoders

/-!
# Ill-formed octets

Where octets are no UTF-8, the decoder reads U+FFFD. What is ASCII stays as it is and where it is,
and every stretch between leaves something.
-/

namespace MapTables

namespace Utf8

/-! ## The machine -/

/-- How many numbers the octets behind the next one tell apart. -/
def Partial.span (p : Partial) : Nat :=
  match p.lacking with
  | 0 | 1 => 1
  | 2 => 64
  | _ => 4096

/-- The least number that a character which has begun can have. -/
def Partial.least (p : Partial) : Nat := (p.bits * 64 + (p.low.toNat - 0x80)) * p.span

def Partial.most (p : Partial) : Nat := (p.bits * 64 + (p.high.toNat - 0x80) + 1) * p.span - 1

/-- A character that has begun will be one, and none of ASCII. -/
structure Partial.Sound (p : Partial) : Prop where
  lacking : p.lacking = 1 ∨ p.lacking = 2 ∨ p.lacking = 3
  low : 0x80 ≤ p.low.toNat
  high : p.high.toNat ≤ 0xBF
  least : 0x80 ≤ p.least
  most : p.most < 0x110000
  valid : p.most < 0xD800 ∨ 0xDFFF < p.least

/-- What begins a character is none of ASCII, and what stands alone is ASCII or no character. -/
theorem first_cases (b : UInt8) :
    (b.toNat < 0x80 ∧ first b = (none, [.char (Char.ofNat b.toNat)])) ∨
    (0x80 ≤ b.toNat ∧ first b = (none, [.bad 1])) ∨
    0x80 ≤ b.toNat ∧ ∃ q : Partial, q.Sound ∧ first b = (some q, []) ∧
      (b.toNat < 0xEF → q.most < 0xF000) ∧ (0xEF < b.toNat → 0x10000 ≤ q.least) := by
  by_cases h : b.toNat < 0x80
  · exact Or.inl ⟨h, by rw [first, if_pos (by simpa [UInt8.lt_iff_toNat_lt] using h)]⟩
  refine Or.inr ?_
  by_cases h2 : b.toNat < 0xC2
  · refine Or.inl ⟨by omega, ?_⟩
    rw [first, if_neg (by simpa [UInt8.lt_iff_toNat_lt] using h),
      if_pos (by simpa [UInt8.lt_iff_toNat_lt] using h2)]
  by_cases h3 : b.toNat < 0xE0
  · refine Or.inr ⟨by omega, _, ?_, first_two (by omega) h3, ?_⟩
    · constructor <;> simp [Partial.least, Partial.most, Partial.span] <;> omega
    · simp [Partial.least, Partial.most, Partial.span]
      omega
  by_cases h4 : b.toNat < 0xF0
  · refine Or.inr ⟨by omega, _, ?_, first_three (by omega) h4, ?_⟩
    · by_cases he : b = 0xE0
      · subst he
        constructor <;> decide
      by_cases hd : b = 0xED
      · subst hd
        constructor <;> decide
      rw [if_neg he, if_neg hd]
      have : b.toNat ≠ 0xE0 := fun h => he (UInt8.toNat_inj.mp h)
      have : b.toNat ≠ 0xED := fun h => hd (UInt8.toNat_inj.mp h)
      constructor <;> simp [Partial.least, Partial.most, Partial.span] <;> omega
    · have hhigh : (if b = 0xED then 0x9F else 0xBF : UInt8).toNat ≤ 0xBF :=
        toNat_ite (P := (· ≤ 0xBF)) (fun _ => by decide) (by decide)
      simp [Partial.least, Partial.most, Partial.span]
      omega
  by_cases h5 : b.toNat < 0xF5
  · refine Or.inr ⟨by omega, _, ?_, first_four (by omega) h5, ?_⟩
    · by_cases he : b = 0xF0
      · subst he
        constructor <;> decide
      by_cases hd : b = 0xF4
      · subst hd
        constructor <;> decide
      rw [if_neg he, if_neg hd]
      have : b.toNat ≠ 0xF0 := fun h => he (UInt8.toNat_inj.mp h)
      have : b.toNat ≠ 0xF4 := fun h => hd (UInt8.toNat_inj.mp h)
      constructor <;> simp [Partial.least, Partial.most, Partial.span] <;> omega
    · by_cases he : b = 0xF0
      · subst he
        decide
      · have : b.toNat ≠ 0xF0 := fun h => he (UInt8.toNat_inj.mp h)
        simp [Partial.least, Partial.most, Partial.span, he]
        omega
  · refine Or.inl ⟨by omega, ?_⟩
    rw [first, if_neg, if_neg, if_neg, if_neg, if_neg] <;> simp [UInt8.lt_iff_toNat_lt] <;> omega

def Partial.next (p : Partial) (b : UInt8) : Partial :=
  ⟨p.seen + 1, p.bits * 64 + (b.toNat - 0x80), p.lacking - 1, 0x80, 0xBF⟩

/-- A character that goes on will be one that it could be before. -/
theorem step_cases {p : Partial} (hp : p.Sound) (b : UInt8) :
    (0x80 ≤ b.toNat ∧ p.lacking = 1 ∧ p.least ≤ (p.next b).bits ∧ (p.next b).bits ≤ p.most ∧
      step (some p) b = (none, [.char (Char.ofNat (p.next b).bits)])) ∨
    (0x80 ≤ b.toNat ∧ p.lacking ≠ 1 ∧ (p.next b).Sound ∧ p.least ≤ (p.next b).least ∧
      (p.next b).most ≤ p.most ∧ step (some p) b = (some (p.next b), [])) ∨
    step (some p) b = ((first b).1, .bad p.seen :: (first b).2) := by
  by_cases hb : p.low ≤ b ∧ b ≤ p.high
  · have hin := hb
    rw [UInt8.le_iff_toNat_le, UInt8.le_iff_toNat_le] at hin
    have hlow := hp.low
    have hhigh := hp.high
    by_cases hl : p.lacking = 1
    · refine Or.inl ⟨by omega, hl, ?_, ?_, ?_⟩
      · simp [Partial.least, Partial.span, Partial.next, hl]
        omega
      · simp [Partial.most, Partial.span, Partial.next, hl]
        omega
      · rw [step, if_pos hb]
        simp only [hl, Nat.le_refl, if_true, Partial.next]
    · have hlacking := hp.lacking
      have hleast : p.least ≤ (p.next b).least := by
        rcases hlacking with h | h | h <;> simp [Partial.least, Partial.span, Partial.next, h] <;>
          omega
      have hmost : (p.next b).most ≤ p.most := by
        rcases hlacking with h | h | h <;> simp [Partial.most, Partial.span, Partial.next, h] <;>
          omega
      have hvalid := hp.valid
      refine Or.inr (Or.inl ⟨by omega, hl, ?_, hleast, hmost, ?_⟩)
      · constructor
        · simp only [Partial.next]
          omega
        · exact Nat.le_refl _
        · exact Nat.le_refl _
        · exact Nat.le_trans hp.least hleast
        · exact Nat.lt_of_le_of_lt hmost hp.most
        · omega
      · have hmore : ¬ p.lacking ≤ 1 := by omega
        rw [step, if_pos hb]
        simp only [hmore, if_false, Partial.next]
  · exact Or.inr (Or.inr (by rw [step, if_neg hb]))

def SoundAt (pending : Option Partial) : Prop := ∀ p ∈ pending, p.Sound

end Utf8

def Beyond (bytes : Bytes) : Prop := ∀ b ∈ bytes, 0x80 ≤ b.toNat

namespace Decoder

open Utf8

variable {o : Option Partial} {a b : UInt8}

theorem toNat_of_between {p : Partial} (hp : p.Sound) {n : Nat} (hl : p.least ≤ n)
    (hm : n ≤ p.most) : (Char.ofNat n).toNat = n := by
  have hmost := hp.most
  have hvalid := hp.valid
  have hchar : n.isValidChar := by
    unfold Nat.isValidChar
    omega
  rw [Char.ofNat, dif_pos hchar]
  exact UInt32.toNat_ofNatLT

theorem step_ascii (ho : SoundAt o) (ha : a.toNat < 0x80) : (Decoder.utf8 o).step a =
    (.utf8 none, (Decoder.utf8 o).finish ++ [Char.ofNat a.toNat]) := by
  have hfirst : first a = (none, [.char (Char.ofNat a.toNat)]) := by
    rcases first_cases a with ⟨-, h⟩ | ⟨h, -⟩ | ⟨h, -⟩
    · exact h
    · omega
    · omega
  cases o with
  | none => simp only [Decoder.step, Utf8.step, hfirst]; rfl
  | some p =>
    rcases step_cases (ho p rfl) a with ⟨h, -⟩ | ⟨h, -⟩ | h
    · omega
    · omega
    · simp only [Decoder.step, h, hfirst]
      rfl

theorem step_beyond (ho : SoundAt o) (hb : 0x80 ≤ b.toNat) : ∃ o' out, SoundAt o' ∧
    (Decoder.utf8 o).step b = (.utf8 o', out) ∧ (∀ c ∈ out, 0x80 ≤ c.toNat) ∧
    (o'.isSome ∨ out ≠ []) := by
  have hunknown : 0x80 ≤ (Piece.bad 1).shown.toNat := by decide
  have begun : ∃ o' out, SoundAt o' ∧ first b = (o', out) ∧ (∀ c ∈ out, 0x80 ≤ c.shown.toNat) ∧
      (o'.isSome ∨ out ≠ []) := by
    rcases first_cases b with ⟨h, -⟩ | ⟨-, h⟩ | ⟨-, q, hq, h, -⟩
    · omega
    · exact ⟨none, _, fun p hp => (by cases hp), h, by simpa using hunknown, Or.inr (by simp)⟩
    · refine ⟨some q, _, fun p hp => ?_, h, by simp, Or.inl rfl⟩
      obtain rfl := Option.some.inj hp
      exact hq
  obtain ⟨o', out, ho', hfirst, hout, hsome⟩ := begun
  cases o with
  | none =>
    refine ⟨o', out.map Piece.shown, ho', by simp only [Decoder.step, Utf8.step, hfirst], ?_, ?_⟩
    · simpa using hout
    · simpa using hsome
  | some p =>
    rcases step_cases (ho p rfl) b with ⟨-, -, hl, hm, h⟩ | ⟨-, -, hq, -, -, h⟩ | h
    · refine ⟨none, [Char.ofNat (p.next b).bits], fun p hp => (by cases hp), ?_, ?_, Or.inr (by simp)⟩
      · simp only [Decoder.step, h]
        rfl
      · have hn := toNat_of_between (ho p rfl) hl hm
        have hleast := (ho p rfl).least
        simp only [List.mem_singleton, forall_eq]
        omega
    · refine ⟨some (p.next b), [], fun x hx => ?_, ?_, by simp, Or.inl rfl⟩
      · obtain rfl := Option.some.inj hx
        exact hq
      · simp only [Decoder.step, h]
        rfl
    · refine ⟨o', unknown :: out.map Piece.shown, ho', ?_, ?_, Or.inr (by simp)⟩
      · simp only [Decoder.step, h, hfirst]
        rfl
      · intro c hc
        rcases List.mem_cons.mp hc with rfl | hc
        · exact hunknown
        · obtain ⟨x, hx, rfl⟩ := List.mem_map.mp hc
          exact hout x hx

theorem sound_run (ho : SoundAt o) (bytes : Bytes) :
    ∃ o', SoundAt o' ∧ ((Decoder.utf8 o).run bytes).1 = .utf8 o' := by
  induction bytes generalizing o with
  | nil => exact ⟨o, ho, rfl⟩
  | cons b bytes ih =>
    rw [← List.singleton_append, run_append]
    have hone : ((Decoder.utf8 o).run [b]).1 = ((Decoder.utf8 o).step b).1 := rfl
    rw [hone]
    by_cases hb : b.toNat < 0x80
    · rw [step_ascii ho hb]
      exact ih fun p hp => (by cases hp)
    · obtain ⟨o', out, ho', hstep, -⟩ := step_beyond ho (b := b) (by omega)
      rw [hstep]
      exact ih ho'

theorem text_ascii (front : Bytes) (ha : a.toNat < 0x80) (back : Bytes) :
    (Decoder.utf8 none).text (front ++ a :: back) = (Decoder.utf8 none).text front ++
      Char.ofNat a.toNat :: (Decoder.utf8 none).text back := by
  obtain ⟨o, ho, hrun⟩ := sound_run (o := none) (fun p hp => (by cases hp)) front
  have hone : (Decoder.utf8 o).run [a] =
      (.utf8 none, ((Decoder.utf8 o).finish ++ [Char.ofNat a.toNat]).toArray) := by
    rw [run, List.foldl_cons, advance, step_ascii ho ha]
    simp
  rw [← List.singleton_append, text_eq, run_append, run_append, hrun, hone, text_eq, hrun,
    text_eq]
  simp

theorem run_beyond (ho : SoundAt o) {s : Bytes} (hs : Beyond s) : ∃ o' out, SoundAt o' ∧
    (Decoder.utf8 o).run s = (.utf8 o', out) ∧ (∀ c ∈ out, 0x80 ≤ c.toNat) ∧
    (s ≠ [] → o'.isSome ∨ out ≠ #[]) := by
  induction s generalizing o with
  | nil => exact ⟨o, #[], ho, rfl, by simp, fun h => absurd rfl h⟩
  | cons b s ih =>
    obtain ⟨o₁, out₁, ho₁, hstep, hout₁, hsome₁⟩ := step_beyond ho (hs b List.mem_cons_self)
    obtain ⟨o₂, out₂, ho₂, hrun, hout₂, hsome₂⟩ := ih ho₁ fun x hx => hs x (List.mem_cons_of_mem b hx)
    have hone : (Decoder.utf8 o).run [b] = (.utf8 o₁, out₁.toArray) := by
      rw [run, List.foldl_cons, advance, hstep]
      simp
    refine ⟨o₂, out₁.toArray ++ out₂, ho₂, ?_, ?_, fun _ => ?_⟩
    · rw [← List.singleton_append, run_append, hone, hrun]
    · intro c hc
      rcases Array.mem_append.mp hc with hc | hc
      · exact hout₁ c (by simpa using hc)
      · exact hout₂ c hc
    · cases s with
      | nil =>
        cases hrun
        simpa using hsome₁
      | cons _ _ =>
        rcases hsome₂ (List.cons_ne_nil _ _) with h | h
        · exact Or.inl h
        · exact Or.inr (by simp [h])

theorem text_beyond {s : Bytes} (hs : Beyond s) :
    (∀ c ∈ (Decoder.utf8 none).text s, 0x80 ≤ c.toNat) ∧
      (s ≠ [] → (Decoder.utf8 none).text s ≠ []) := by
  obtain ⟨o, out, ho, hrun, hout, hsome⟩ := run_beyond (o := none) (fun p hp => (by cases hp)) hs
  have hfinish : ∀ c ∈ (Decoder.utf8 o).finish, 0x80 ≤ c.toNat := by
    cases o with
    | none => simp [finish]
    | some p =>
      intro c hc
      obtain rfl := List.mem_singleton.mp hc
      decide
  rw [text_eq, hrun]
  constructor
  · intro c hc
    rcases List.mem_append.mp hc with hc | hc
    · exact hout c (by simpa using hc)
    · exact hfinish c hc
  · intro hne h
    rw [List.append_eq_nil_iff] at h
    rcases hsome hne with hp | hp
    · cases o with
      | none => cases hp
      | some p => cases h.2
    · exact hp (by simpa using h.1)

/-! ## Replacement -/

theorem foldl_advance_utf8 (bytes : Bytes) (s : Option Partial × Array Utf8.Piece) :
    bytes.foldl Decoder.advance (.utf8 s.1, s.2.map Utf8.Piece.shown) =
      (.utf8 (bytes.foldl Utf8.advance s).1, (bytes.foldl Utf8.advance s).2.map Utf8.Piece.shown) := by
  induction bytes generalizing s with
  | nil => rfl
  | cons b bytes ih =>
    have hshown (out : Array Utf8.Piece) (more : List Utf8.Piece) :
        (out ++ more).map Utf8.Piece.shown =
          out.map Utf8.Piece.shown ++ more.map Utf8.Piece.shown :=
      Array.ext' (by simp)
    rw [List.foldl_cons, List.foldl_cons, ← ih]
    simp only [Decoder.advance, Utf8.advance, Decoder.step, hshown]

theorem text_utf8 (bytes : Bytes) :
    String.ofList ((Decoder.utf8 none).text bytes) = decodeLossy bytes := by
  have hrun := foldl_advance_utf8 bytes (none, #[])
  rw [Array.map_empty] at hrun
  rw [text_eq, run, hrun, decodeLossy, report]
  simp only [Array.toList_map]
  cases (bytes.foldl Utf8.advance (none, #[])).1 with
  | none => simp [finish]
  | some p => rfl

end Decoder

/-! ## Mended octets -/

/-- The octets with U+FFFD in place of what is ill-formed. -/
def mend (bytes : Bytes) : Bytes := Bytes.ofChars ((Decoder.utf8 none).text bytes)

@[simp] theorem mend_nil : mend [] = [] := rfl

theorem decodeLossy_mend (bytes : Bytes) : Utf8.decodeLossy (mend bytes) = Utf8.decodeLossy bytes := by
  rw [← Decoder.text_utf8 bytes, ← Utf8.decodeLossy_ofString (String.ofList _), Bytes.ofString_eq,
    String.toList_ofList, mend]

theorem mend_eq_self_iff {bytes : Bytes} : mend bytes = bytes ↔ ∃ s, bytes = Bytes.ofString s := by
  constructor
  · intro h
    refine ⟨String.ofList ((Decoder.utf8 none).text bytes), ?_⟩
    rw [Bytes.ofString_eq, String.toList_ofList]
    exact h.symm
  · rintro ⟨s, rfl⟩
    have h := Decoder.text_utf8 (Bytes.ofString s)
    rw [Utf8.decodeLossy_ofString] at h
    rw [mend, ← String.toList_ofList (l := (Decoder.utf8 none).text _), h, Bytes.ofString_eq]

variable {a : UInt8}

theorem encode_ascii (ha : a.toNat < 0x80) : String.utf8EncodeChar (Char.ofNat a.toNat) = [a] := by
  have hn : (Char.ofNat a.toNat).val.toNat = a.toNat := by
    have hchar : a.toNat.isValidChar := Or.inl (by omega)
    rw [Char.ofNat, dif_pos hchar]
    exact UInt32.toNat_ofNatLT
  rw [String.utf8EncodeChar, hn]
  simp only [show a.toNat ≤ 127 by omega, if_true, UInt8.ofNat_toNat]

theorem mend_append (ha : a.toNat < 0x80) (front back : Bytes) :
    mend (front ++ a :: back) = mend front ++ a :: mend back := by
  have hcons (cs : List Char) : Bytes.ofChars (Char.ofNat a.toNat :: cs) = a :: Bytes.ofChars cs := by
    rw [Bytes.ofChars, List.flatMap_cons, encode_ascii ha]
    rfl
  rw [mend, Decoder.text_ascii front ha, ofChars_append, hcons]
  rfl

theorem mend_cons (ha : a.toNat < 0x80) (bytes : Bytes) :
    mend (a :: bytes) = a :: mend bytes := mend_append ha [] bytes

theorem beyond_mend {s : Bytes} (hs : Beyond s) : Beyond (mend s) := by
  intro b hb
  refine Nat.le_of_not_lt fun hlt => ?_
  obtain ⟨c, hc, hmem⟩ := List.mem_flatMap.mp hb
  have hnum := Utf8.toNat_of_mem_encode hlt hmem
  have := (Decoder.text_beyond hs).1 c hc
  omega

theorem mend_beyond_ne_nil {s : Bytes} (hs : Beyond s) (hne : s ≠ []) : mend s ≠ [] := by
  obtain ⟨c, cs, hcs⟩ := List.exists_cons_of_ne_nil ((Decoder.text_beyond hs).2 hne)
  have hc : String.utf8EncodeChar c ≠ [] := by
    rw [← List.length_pos_iff, String.length_utf8EncodeChar]
    exact c.utf8Size_pos
  rw [mend, hcs]
  exact List.append_ne_nil_of_left_ne_nil hc _

/-- Octets come in stretches without ASCII, with one ASCII octet between each two. -/
@[elab_as_elim]
theorem stretches_induction {P : Bytes → Prop} (beyond : ∀ s, Beyond s → P s)
    (ascii : ∀ s a rest, Beyond s → a.toNat < 0x80 → P rest → P (s ++ a :: rest)) (bytes : Bytes) :
    P bytes := by
  suffices h : ∀ s, Beyond s → P (s ++ bytes) from h [] fun b hb => by cases hb
  induction bytes with
  | nil =>
    intro s hs
    rw [List.append_nil]
    exact beyond s hs
  | cons b bytes ih =>
    intro s hs
    by_cases hb : b.toNat < 0x80
    · exact ascii s b bytes hs hb (ih [] fun b hb => by cases hb)
    · rw [← List.singleton_append, ← List.append_assoc]
      refine ih _ fun x hx => ?_
      rcases List.mem_append.mp hx with hx | hx
      · exact hs x hx
      · obtain rfl := List.mem_singleton.mp hx
        omega


variable {bytes front back : Bytes}

theorem split_of_mend (ha : a.toNat < 0x80) (h : mend bytes = front ++ a :: back) :
    ∃ f r, bytes = f ++ a :: r ∧ mend f = front ∧ mend r = back := by
  have absent {s : Bytes} (hs : Beyond s) : a ∉ mend s := fun hm => by
    have := beyond_mend hs a hm
    omega
  induction bytes using stretches_induction generalizing front with
  | beyond s hs => exact absurd (h ▸ List.mem_append_right _ List.mem_cons_self) (absent hs)
  | ascii s x rest hs hx ih =>
    rw [mend_append hx] at h
    rcases List.append_eq_append_iff.mp h with ⟨as, rfl, has⟩ | ⟨bs, hmend, hbs⟩
    · cases as with
      | nil =>
        obtain ⟨rfl, hrest⟩ := List.cons.inj has
        exact ⟨s, rest, rfl, (List.append_nil _).symm, hrest⟩
      | cons y as =>
        obtain ⟨rfl, hrest⟩ := List.cons.inj has
        obtain ⟨f, r, rfl, rfl, rfl⟩ := ih hrest
        refine ⟨s ++ x :: f, r, ?_, mend_append hx s f, rfl⟩
        rw [List.append_assoc, List.cons_append]
    · cases bs with
      | nil =>
        obtain ⟨rfl, hrest⟩ := List.cons.inj hbs
        exact ⟨s, rest, rfl, hmend.trans (List.append_nil _), hrest.symm⟩
      | cons y bs =>
        obtain ⟨rfl, -⟩ := List.cons.inj hbs
        exact absurd (hmend ▸ List.mem_append_right _ List.mem_cons_self) (absent hs)

@[simp] theorem mend_eq_nil : mend bytes = [] ↔ bytes = [] := by
  refine ⟨fun h => ?_, fun h => by rw [h, mend_nil]⟩
  induction bytes using stretches_induction with
  | beyond s hs => exact Decidable.byContradiction fun hne => mend_beyond_ne_nil hs hne h
  | ascii s x rest hs hx =>
    rw [mend_append hx, List.append_eq_nil_iff] at h
    cases h.2

theorem mem_mend (ha : a.toNat < 0x80) : a ∈ mend bytes ↔ a ∈ bytes := by
  constructor
  · intro h
    obtain ⟨front, back, h⟩ := List.append_of_mem h
    obtain ⟨f, r, rfl, -, -⟩ := split_of_mend ha h
    exact List.mem_append_right _ List.mem_cons_self
  · intro h
    obtain ⟨f, r, rfl⟩ := List.append_of_mem h
    rw [mend_append ha]
    exact List.mem_append_right _ List.mem_cons_self

theorem filter_mend (bytes : Bytes) :
    (mend bytes).filter (·.toNat < 0x80) = bytes.filter (·.toNat < 0x80) := by
  have nothing {s : Bytes} (hs : Beyond s) : s.filter (·.toNat < 0x80) = [] := by
    simpa [List.filter_eq_nil_iff, Beyond] using hs
  induction bytes using stretches_induction with
  | beyond s hs => rw [nothing hs, nothing (beyond_mend hs)]
  | ascii s x rest hs hx ih =>
    rw [mend_append hx, List.filter_append, List.filter_append, List.filter_cons, List.filter_cons,
      nothing hs, nothing (beyond_mend hs), ih]

theorem mend_ascii (h : ∀ b ∈ bytes, b.toNat < 0x80) : mend bytes = bytes := by
  induction bytes with
  | nil => rfl
  | cons b bytes ih =>
    rw [mend_cons (h b List.mem_cons_self), ih fun x hx => h x (List.mem_cons_of_mem b hx)]

theorem ascii_of_mend (h : ∀ b ∈ mend bytes, b.toNat < 0x80) : ∀ b ∈ bytes, b.toNat < 0x80 := by
  have nothing {s : Bytes} (hs : Beyond s) (h : ∀ b ∈ mend s, b.toNat < 0x80) : s = [] := by
    refine mend_eq_nil.mp (List.eq_nil_iff_forall_not_mem.mpr fun b hb => ?_)
    have := h b hb
    have := beyond_mend hs b hb
    omega
  induction bytes using stretches_induction with
  | beyond s hs =>
    rw [nothing hs h]
    simp
  | ascii s x rest hs hx ih =>
    rw [mend_append hx] at h
    rw [nothing hs fun b hb => h b (List.mem_append_left _ hb)]
    intro b hb
    rcases List.mem_cons.mp hb with rfl | hb
    · exact hx
    · exact ih (fun b hb => h b (List.mem_append_right _ (List.mem_cons_of_mem x hb))) b hb

/-! ## Ends -/

theorem mend_concat (ha : a.toNat < 0x80) (bytes : Bytes) : mend (bytes ++ [a]) = mend bytes ++ [a] :=
  mend_append ha bytes []

theorem concat_of_mend (ha : a.toNat < 0x80) (h : mend bytes = front ++ [a]) :
    ∃ f, bytes = f ++ [a] ∧ mend f = front := by
  obtain ⟨f, r, rfl, hf, hr⟩ := split_of_mend ha h
  rw [mend_eq_nil.mp hr]
  exact ⟨f, rfl, hf⟩

theorem mend_append_ascii (front : Bytes) {back : Bytes} (h : ∀ b ∈ back, b.toNat < 0x80) :
    mend (front ++ back) = mend front ++ back := by
  cases back with
  | nil => rw [List.append_nil, List.append_nil]
  | cons b back =>
    rw [mend_append (h b List.mem_cons_self),
      mend_ascii fun x hx => h x (List.mem_cons_of_mem b hx)]

theorem getLast?_mend (ha : a.toNat < 0x80) :
    (mend bytes).getLast? = some a ↔ bytes.getLast? = some a := by
  rw [List.getLast?_eq_some_iff, List.getLast?_eq_some_iff]
  constructor
  · rintro ⟨front, h⟩
    obtain ⟨f, rfl, -⟩ := concat_of_mend ha h
    exact ⟨f, rfl⟩
  · rintro ⟨f, rfl⟩
    exact ⟨mend f, mend_concat ha f⟩

theorem head?_mend (ha : a.toNat < 0x80) : (mend bytes).head? = some a ↔ bytes.head? = some a := by
  rw [List.head?_eq_some_iff, List.head?_eq_some_iff]
  constructor
  · rintro ⟨back, h⟩
    obtain ⟨f, r, rfl, hf, -⟩ := split_of_mend ha (h.trans (List.nil_append _).symm)
    rw [mend_eq_nil.mp hf]
    exact ⟨r, rfl⟩
  · rintro ⟨r, rfl⟩
    exact ⟨mend r, mend_cons ha r⟩

theorem head_beyond {b c : UInt8} (hb : ¬ b.toNat < 0x80) (h : mend (b :: bytes) = c :: back) :
    ¬ c.toNat < 0x80 := by
  intro hc
  have hhead : (b :: bytes).head? = some c := (head?_mend hc).mp (by rw [h, List.head?_cons])
  exact hb (Option.some.inj hhead ▸ hc)

theorem mend_ascii_append (h : ∀ b ∈ front, b.toNat < 0x80) (back : Bytes) :
    mend (front ++ back) = front ++ mend back := by
  induction front with
  | nil => rfl
  | cons b front ih =>
    rw [List.cons_append, mend_cons (h b List.mem_cons_self),
      ih fun x hx => h x (List.mem_cons_of_mem b hx), List.cons_append]


/-! ## Marks -/

namespace Decoder

open Utf8

theorem text_cons (d : Decoder) (b : UInt8) (bytes : Bytes) :
    d.text (b :: bytes) = (d.step b).2 ++ (d.step b).1.text bytes := by
  rw [text_eq, run_cons, text_eq]
  simp

theorem bounds_of_head {p : Partial} (hp : p.Sound) {bytes : Bytes} {c : Char} (hc : c ≠ unknown)
    (h : ((Decoder.utf8 (some p)).text bytes).head? = some c) :
    p.least ≤ c.toNat ∧ c.toNat ≤ p.most := by
  induction bytes generalizing p with
  | nil => exact absurd (Option.some.inj h).symm hc
  | cons b bytes ih =>
    rw [text_cons] at h
    rcases step_cases hp b with ⟨-, -, hl, hm, hs⟩ | ⟨-, -, hq, hl, hm, hs⟩ | hs
    · simp only [Decoder.step, hs] at h
      obtain rfl : Char.ofNat (p.next b).bits = c := Option.some.inj h
      rw [toNat_of_between hp hl hm]
      exact ⟨hl, hm⟩
    · simp only [Decoder.step, hs] at h
      obtain ⟨hleast, hmost⟩ := ih hq h
      exact ⟨Nat.le_trans hl hleast, Nat.le_trans hmost hm⟩
    · simp only [Decoder.step, hs] at h
      exact absurd (Option.some.inj h).symm hc

theorem next_of_head {p : Partial} (hp : p.Sound) {c : Char} (hc : c ≠ unknown)
    (h : ((Decoder.utf8 (some p)).text bytes).head? = some c) : ∃ b rest, bytes = b :: rest ∧
      0x80 ≤ b.toNat ∧ ((p.lacking = 1 ∧ (p.next b).bits = c.toNat) ∨
        (p.lacking ≠ 1 ∧ (p.next b).Sound ∧
          ((Decoder.utf8 (some (p.next b))).text rest).head? = some c)) := by
  cases bytes with
  | nil => exact absurd (Option.some.inj h).symm hc
  | cons b rest =>
    refine ⟨b, rest, rfl, ?_⟩
    rw [text_cons] at h
    rcases step_cases hp b with ⟨hb, hone, hl, hm, hs⟩ | ⟨hb, hmore, hq, -, -, hs⟩ | hs
    · simp only [Decoder.step, hs] at h
      obtain rfl : Char.ofNat (p.next b).bits = c := Option.some.inj h
      exact ⟨hb, Or.inl ⟨hone, (toNat_of_between hp hl hm).symm⟩⟩
    · simp only [Decoder.step, hs] at h
      exact ⟨hb, Or.inr ⟨hmore, hq, h⟩⟩
    · simp only [Decoder.step, hs] at h
      exact absurd (Option.some.inj h).symm hc

theorem mark_of_head (h : ((Decoder.utf8 none).text bytes).head? = some '\uFEFF') :
    Markup.utf8Mark <+: bytes := by
  have hne : '\uFEFF' ≠ unknown := by decide
  have hnum : '\uFEFF'.toNat = 0xFEFF := rfl
  have begun : first 0xEF = (some ⟨1, 15, 2, 0x80, 0xBF⟩, []) := by decide
  cases bytes with
  | nil => cases h
  | cons b bytes =>
    rw [text_cons] at h
    rcases first_cases b with ⟨hb, hs⟩ | ⟨-, hs⟩ | ⟨-, q, hq, hs, hleast, hmost⟩
    · simp only [Decoder.step, Utf8.step, hs] at h
      have hc : Char.ofNat b.toNat = '\uFEFF' := Option.some.inj h
      have hmem : b ∈ String.utf8EncodeChar '\uFEFF' := by
        rw [← hc, encode_ascii hb]
        exact List.mem_singleton_self b
      have := Utf8.toNat_of_mem_encode hb hmem
      omega
    · simp only [Decoder.step, Utf8.step, hs] at h
      exact absurd (Option.some.inj h).symm hne
    · simp only [Decoder.step, Utf8.step, hs] at h
      have hbounds := bounds_of_head hq hne h
      obtain rfl : b = 0xEF := UInt8.toNat_inj.mp (by
        change b.toNat = 0xEF
        omega)
      obtain rfl := Option.some.inj (congrArg Prod.fst (begun.symm.trans hs))
      obtain ⟨b, bytes, rfl, hb, ⟨hone, -⟩ | ⟨-, hq', h⟩⟩ := next_of_head hq hne h
      · cases hone
      · have hbounds := bounds_of_head hq' hne h
        obtain ⟨b', bytes, rfl, hb', ⟨-, hlast⟩ | ⟨hmore, -⟩⟩ := next_of_head hq' hne h
        · simp [Partial.next, Partial.least, Partial.most, Partial.span, hnum] at hbounds hlast
          obtain rfl : b = 0xBB := UInt8.toNat_inj.mp (by
            change b.toNat = 0xBB
            omega)
          obtain rfl : b' = 0xBF := UInt8.toNat_inj.mp (by
            change b'.toNat = 0xBF
            omega)
          exact ⟨bytes, rfl⟩
        · exact absurd rfl hmore

end Decoder

theorem char_of_mark {c : Char} (h : Markup.utf8Mark <+: String.utf8EncodeChar c) :
    c = '\uFEFF' := by
  suffices hn : c.val.toNat = 0xFEFF by
    rw [← Char.ofNat_toNat c]
    exact congrArg Char.ofNat hn
  have octet {n : Nat} {b : UInt8} (hn : n < 256) (hb : b = UInt8.ofNat n) : b.toNat = n := by
    rw [hb, Utf8.toNat_ofNat hn]
  have hvalid : c.val.toNat < 0xD800 ∨ 0xDFFF < c.val.toNat ∧ c.val.toNat < 0x110000 := c.valid
  unfold String.utf8EncodeChar at h
  generalize c.val.toNat = n at h hvalid ⊢
  have hlen := h.length_le
  simp only at h hlen
  split at h
  · next hv => simp [hv, Markup.utf8Mark] at hlen
  split at h
  · next hv hv' => simp [hv, hv', Markup.utf8Mark] at hlen
  split at h
  · have h1 := octet (by omega) (List.cons_prefix_cons.mp h).1
    have h := (List.cons_prefix_cons.mp h).2
    have h2 := octet (by omega) (List.cons_prefix_cons.mp h).1
    have h := (List.cons_prefix_cons.mp h).2
    have h3 := octet (by omega) (List.cons_prefix_cons.mp h).1
    simp at h1 h2 h3
    omega
  · have h1 := octet (by omega) (List.cons_prefix_cons.mp h).1
    simp at h1

theorem mark_of_mend (h : Markup.utf8Mark <+: mend bytes) : Markup.utf8Mark <+: bytes := by
  refine Decoder.mark_of_head ?_
  rw [mend] at h
  cases ht : (Decoder.utf8 none).text bytes with
  | nil =>
    rw [ht] at h
    cases List.prefix_nil.mp h
  | cons c cs =>
    rw [ht, Bytes.ofChars, List.flatMap_cons] at h
    rw [List.head?_cons, char_of_mark (mark_of_ofChars h)]

theorem unmarked_mend (h : ¬ Markup.utf8Mark <+: bytes) : unmarked (mend bytes) = mend bytes := by
  rw [unmarked, if_neg]
  rw [List.isPrefixOf_iff_prefix]
  exact fun hm => h (mark_of_mend hm)

end MapTables
