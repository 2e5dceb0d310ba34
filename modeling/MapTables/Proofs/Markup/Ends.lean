import MapTables.Proofs.Input.Mended
import MapTables.Proofs.Markup.Divided

/-!
# Where constructs end in mended octets

A text, a tag, a comment or a document type ends at an octet of ASCII, and what stands in front of
that tells by octets of ASCII whether it does. So mended octets are cut where the octets were.
-/

namespace MapTables.Markup

variable {a b : UInt8} {bytes front rest : Bytes}

/-! ## Classes of octets -/

section Classes

variable {p : UInt8 → Bool} (hp : ∀ b, p b = false → b.toNat < 0x80)

include hp

theorem all_mend (h : ∀ b ∈ bytes, p b = true) : ∀ b ∈ mend bytes, p b = true := by
  intro b hb
  rw [← Bool.not_eq_false]
  exact fun hf => Bool.false_ne_true (hf.symm.trans (h b ((mem_mend (hp b hf)).mp hb)))

theorem span_mend (bytes : Bytes) : (mend bytes).takeWhile p = mend (bytes.takeWhile p) ∧
    (mend bytes).dropWhile p = mend (bytes.dropWhile p) := by
  cases hd : bytes.dropWhile p with
  | nil =>
    have hall : ∀ b ∈ bytes, p b = true := List.dropWhile_eq_nil_iff.mp hd
    have hmend := all_mend hp hall
    rw [List.takeWhile_eq_self_iff.mpr hall, List.takeWhile_eq_self_iff.mpr hmend,
      List.dropWhile_eq_nil_iff.mpr hmend]
    exact ⟨rfl, rfl⟩
  | cons c rest =>
    obtain ⟨he, hc, hall⟩ := span_of_dropWhile hd
    have hmend : mend bytes = mend (bytes.takeWhile p) ++ c :: mend rest := by
      rw [← mend_append (hp c hc), ← he]
    rw [hmend, mend_cons (hp c hc)]
    exact span_append (all_mend hp hall) hc (mend rest)

theorem behind_mend (bytes : Bytes) :
    ((mend bytes).dropWhile p).tail = mend (bytes.dropWhile p).tail := by
  rw [(span_mend hp bytes).2]
  cases hd : bytes.dropWhile p with
  | nil => rfl
  | cons c rest =>
    rw [mend_cons (hp c (span_of_dropWhile hd).2.1)]
    rfl

end Classes

theorem ascii_of_isText (h : isText b = false) : b.toNat < 0x80 := by
  obtain rfl : b = 0x3C := by simpa [isText] using h
  decide

theorem ascii_of_isContent (h : isContent b = false) : b.toNat < 0x80 := by
  obtain rfl : b = 0x3E := by simpa [isContent] using h
  decide

theorem ascii_of_isSpace (h : Tag.isSpace b = true) : b.toNat < 0x80 := by
  simp only [Tag.isSpace, Bool.or_eq_true, beq_iff_eq] at h
  rcases h with ((rfl | rfl) | rfl) | rfl <;> decide

theorem all_isSpace_mend (bytes : Bytes) : (mend bytes).all Tag.isSpace = bytes.all Tag.isSpace := by
  rw [Bool.eq_iff_iff, List.all_eq_true, List.all_eq_true]
  constructor
  · intro h
    rwa [mend_ascii (ascii_of_mend fun b hb => ascii_of_isSpace (h b hb))] at h
  · intro h
    rwa [mend_ascii fun b hb => ascii_of_isSpace (h b hb)]

/-! ## Cuts -/

/-- The octets in front of the first `>` that they let be the end, and those behind it. -/
def cut (ends : Bytes → Bool) : Bytes → Option (Bytes × Bytes)
  | [] => none
  | b :: rest =>
    if b = 0x3E ∧ ends [] then some ([], rest)
    else (cut (fun front => ends (b :: front)) rest).map (Prod.map (b :: ·) id)

variable {ends ends' : Bytes → Bool}

theorem split_of_cut (h : cut ends bytes = some (front, rest)) : bytes = front ++ 0x3E :: rest := by
  induction bytes generalizing ends front with
  | nil => cases h
  | cons b bytes ih =>
    rw [cut] at h
    split at h
    · next hb =>
      cases h
      rw [hb.1, List.nil_append]
    · obtain ⟨⟨front', rest'⟩, hcut, he⟩ := Option.map_eq_some_iff.mp h
      cases he
      rw [ih hcut]
      rfl

theorem cut_append (ends : Bytes → Bool) (h : 0x3E ∉ front) (bytes : Bytes) : cut ends (front ++ bytes) =
    (cut (fun f => ends (front ++ f)) bytes).map (Prod.map (front ++ ·) id) := by
  induction front generalizing ends with
  | nil => exact (congrFun Option.map_id _).symm
  | cons b front ih =>
    obtain ⟨hb, hfront⟩ := List.ne_and_not_mem_of_not_mem_cons h
    rw [List.cons_append, cut, if_neg fun hc => hb hc.1.symm, ih _ hfront, Option.map_map]
    rfl

theorem not_mem_of_beyond (ha : a.toNat < 0x80) (hs : Beyond bytes) : a ∉ bytes := fun hm => by
  have := hs a hm
  omega

/-- Where mended octets let the same be the end, they are cut as the octets are. -/
theorem cut_mend (same : ∀ f, ends' (mend f) = ends f) (bytes : Bytes) :
    cut ends' (mend bytes) = (cut ends bytes).map (Prod.map mend mend) := by
  have plain {s : Bytes} (hs : Beyond s) : 0x3E ∉ s := not_mem_of_beyond (by decide) hs
  induction bytes using stretches_induction generalizing ends ends' with
  | beyond s hs =>
    have hcut := cut_append ends (plain hs) []
    have hcut' := cut_append ends' (plain (beyond_mend hs)) []
    rw [List.append_nil] at hcut hcut'
    rw [hcut, hcut']
    rfl
  | ascii s a rest hs ha ih =>
    have htell : ends' (mend s ++ []) = ends (s ++ []) := by
      rw [List.append_nil, List.append_nil, same]
    rw [mend_append ha, cut_append ends (plain hs), cut_append ends' (plain (beyond_mend hs)), cut,
      cut, htell]
    split
    · simp
    · have hsame (f : Bytes) : ends' (mend s ++ a :: mend f) = ends (s ++ a :: f) := by
        rw [← mend_append ha, same]
      rw [ih hsame]
      simp only [Option.map_map]
      congr 1
      funext ⟨f, r⟩
      exact Prod.ext (mend_append ha s f).symm rfl

/-! ## Tags -/

def quoteAfter (quote : Option UInt8) (b : UInt8) : Option UInt8 :=
  match quote with
  | none => if b = 0x22 ∨ b = 0x27 then some b else none
  | some q => if b = q then none else quote

/-- No quote is open behind the octets. -/
def unquoted (quote : Option UInt8) (front : Bytes) : Bool := (front.foldl quoteAfter quote).isNone

theorem tagLength_cons (quote : Option UInt8) (n : Nat) (b : UInt8) (bytes : Bytes) :
    tagLength quote n (b :: bytes) =
      if b = 0x3E ∧ unquoted quote [] then n else tagLength (quoteAfter quote b) (n + 1) bytes := by
  cases quote with
  | none =>
    rw [tagLength, quoteAfter]
    by_cases hb : b = 0x3E
    · simp [hb, unquoted]
    · simp only [hb, if_false, false_and]
      split <;> rfl
  | some q =>
    have hopen : ¬ (b = 0x3E ∧ unquoted (some q) [] = true) := by simp [unquoted]
    rw [if_neg hopen]
    rfl

theorem tagLength_eq (quote : Option UInt8) (n : Nat) (bytes : Bytes) : tagLength quote n bytes =
    n + ((cut (unquoted quote) bytes).map fun c => c.1.length).getD bytes.length := by
  induction bytes generalizing quote n with
  | nil => rfl
  | cons b bytes ih =>
    have hnext : (fun front => unquoted quote (b :: front)) = unquoted (quoteAfter quote b) := rfl
    rw [tagLength_cons, cut, hnext]
    split
    · rfl
    · rw [ih]
      cases cut (unquoted (quoteAfter quote b)) bytes with
      | none => exact Nat.add_right_comm n 1 bytes.length
      | some c => exact Nat.add_right_comm n 1 c.1.length

theorem quoteAfter_filter {quote : Option UInt8} (hq : ∀ q ∈ quote, q.toNat < 0x80) (bytes : Bytes) :
    (bytes.filter (·.toNat < 0x80)).foldl quoteAfter quote = bytes.foldl quoteAfter quote := by
  induction bytes generalizing quote with
  | nil => rfl
  | cons b bytes ih =>
    by_cases hb : b.toNat < 0x80
    · have hnext : ∀ q ∈ quoteAfter quote b, q.toNat < 0x80 := by
        intro q h
        cases quote with
        | none =>
          simp only [quoteAfter, Option.mem_def, Option.ite_none_right_eq_some] at h
          exact Option.some.inj h.2 ▸ hb
        | some x =>
          simp only [quoteAfter, Option.mem_def, Option.ite_none_left_eq_some] at h
          exact hq q h.2
      rw [List.filter_cons_of_pos (by simpa using hb), List.foldl_cons, List.foldl_cons, ih hnext]
    · have hsame : quoteAfter quote b = quote := by
        cases quote with
        | none =>
          rw [quoteAfter, if_neg]
          rintro (rfl | rfl) <;> exact hb (by decide)
        | some q =>
          rw [quoteAfter, if_neg]
          rintro rfl
          exact hb (hq b rfl)
      rw [List.filter_cons_of_neg (by simpa using hb), List.foldl_cons, hsame, ih hq]

theorem unquoted_mend (bytes : Bytes) : unquoted none (mend bytes) = unquoted none bytes := by
  have hnone : ∀ q ∈ (none : Option UInt8), q.toNat < 0x80 := fun q hq => by cases hq
  rw [unquoted, unquoted, ← quoteAfter_filter hnone, filter_mend, quoteAfter_filter hnone]

/-! ## Document types -/

/-- As many `<` as `>` are in the octets, but for a balance. -/
def balanced (balance : Int) (front : Bytes) : Bool := balance + depth front = 0

theorem doctypeLength?_eq (offset n : Nat) (balance : Int) (bytes : Bytes) :
    doctypeLength? [] offset n balance bytes =
      (cut (balanced balance) bytes).map fun c => n + c.1.length := by
  induction bytes generalizing offset n balance with
  | nil => rfl
  | cons b bytes ih =>
    have hnext : (fun front => balanced balance (b :: front)) =
        balanced (if b = 0x3C then balance + 1 else if b = 0x3E then balance - 1 else balance) := by
      funext f
      rw [balanced, balanced, depth_cons]
      congr 2
      grind
    have hnil : balanced balance [] = decide (balance = 0) := by simp [balanced, depth]
    simp only [doctypeLength?, cut, hnext, hnil, ih, List.head?_nil, Option.none_beq_some,
      Bool.false_eq_true, if_false, decide_eq_true_eq]
    split
    · rfl
    · rw [Option.map_map]
      congr 1
      funext c
      exact Nat.add_right_comm n 1 c.1.length

theorem depth_mend (bytes : Bytes) : depth (mend bytes) = depth bytes := by
  have hcount {a : UInt8} (ha : a.toNat < 0x80) : (mend bytes).count a = bytes.count a := by
    rw [← List.count_filter (p := (·.toNat < 0x80)) (by simpa using ha), filter_mend,
      List.count_filter (by simpa using ha)]
  rw [depth, depth, hcount (by decide), hcount (by decide)]

/-! ## Comments and sections of plain text -/

def lastTwo (s : UInt8 × UInt8) (front : Bytes) : UInt8 × UInt8 :=
  front.foldl (fun s b => (s.2, b)) s

/-- The octets, behind so many others of which the last two are given, end in a mark written
twice. -/
def marked (mark : UInt8) (least n : Nat) (s : UInt8 × UInt8) (front : Bytes) : Bool :=
  least ≤ n + front.length ∧ lastTwo s front = (mark, mark)

theorem markedLength?_eq (mark : UInt8) (least n : Nat) (a b : UInt8) (bytes : Bytes) :
    markedLength? mark least n a b bytes =
      (cut (marked mark least n (a, b)) bytes).map fun c => n + c.1.length := by
  induction bytes generalizing n a b with
  | nil => rfl
  | cons c bytes ih =>
    have hnext : (fun front => marked mark least n (a, b) (c :: front)) =
        marked mark least (n + 1) (b, c) := by
      funext f
      rw [marked, marked, List.length_cons, Nat.add_comm f.length, ← Nat.add_assoc]
      rfl
    have hnil : marked mark least n (a, b) [] = decide (least ≤ n ∧ a = mark ∧ b = mark) := by
      simp [marked, lastTwo]
    simp only [markedLength?, cut, hnext, hnil, ih, decide_eq_true_eq]
    split
    · rfl
    · rw [Option.map_map]
      congr 1
      funext c
      exact Nat.add_right_comm n 1 c.1.length

theorem marked_iff {mark x : UInt8} (hm : mark ≠ 0) {least : Nat} (hl : least ≤ 4) :
    marked mark least 1 (0, x) front = true ↔ (front = [mark] ∧ x = mark ∧ least ≤ 2) ∨
      ∃ f, front = f ++ [mark] ++ [mark] ∧ (f = [] → least ≤ 3) := by
  have short {l : Bytes} (h : l.length < 2) :
      ¬ ∃ f, l = f ++ [mark] ++ [mark] ∧ (f = [] → least ≤ 3) := by
    rintro ⟨f, rfl, -⟩
    rw [List.length_append, List.length_append, List.length_singleton] at h
    omega
  rw [marked, decide_eq_true_eq]
  rcases List.eq_nil_or_concat front with rfl | ⟨front, z, rfl⟩
  · simp [lastTwo, hm.symm]
  rcases List.eq_nil_or_concat front with rfl | ⟨front, y, rfl⟩
  · have hlast : lastTwo (0, x) [z] = (x, z) := rfl
    simp only [List.concat_eq_append, List.nil_append, hlast, Prod.mk.injEq, List.cons.injEq, and_true, or_false,
      short (l := [z]) (Nat.lt_succ_self 1), List.length_singleton]
    exact ⟨fun ⟨hn, hx, hz⟩ => ⟨hz, hx, hn⟩, fun ⟨hz, hx, hn⟩ => ⟨hn, hx, hz⟩⟩
  · have hlast : lastTwo (0, x) (front ++ [y] ++ [z]) = (y, z) := by simp [lastTwo]
    have hlen : least ≤ 1 + (front ++ [y] ++ [z]).length ↔ (front = [] → least ≤ 3) := by
      cases front with
      | nil => simp
      | cons b f => simp; omega
    rw [List.concat_eq_append, List.concat_eq_append, hlast, hlen, Prod.mk.injEq]
    constructor
    · rintro ⟨hn, rfl, rfl⟩
      exact Or.inr ⟨front, rfl, hn⟩
    · rintro (⟨h, -⟩ | ⟨f, h, hn⟩)
      · have := congrArg List.length h
        simp at this
      · obtain ⟨h, hz⟩ := List.append_inj' h rfl
        obtain ⟨rfl, hy⟩ := List.append_inj' h rfl
        exact ⟨hn, List.singleton_inj.mp hy, List.singleton_inj.mp hz⟩

theorem marked_mend {mark : UInt8} (hm : mark ≠ 0) (ha : mark.toNat < 0x80) {least : Nat}
    (hl : least ≤ 4) (x : UInt8) (bytes : Bytes) :
    marked mark least 1 (0, x) (mend bytes) = marked mark least 1 (0, x) bytes := by
  rw [Bool.eq_iff_iff, marked_iff hm hl, marked_iff hm hl]
  constructor
  · rintro (⟨h, hx⟩ | ⟨f, h, hn⟩)
    · obtain ⟨f, rfl, hf⟩ := concat_of_mend ha (h.trans (List.nil_append _).symm)
      exact Or.inl ⟨by rw [mend_eq_nil.mp hf, List.nil_append], hx⟩
    · obtain ⟨g, rfl, hg⟩ := concat_of_mend ha h
      obtain ⟨f', rfl, rfl⟩ := concat_of_mend ha hg
      exact Or.inr ⟨f', rfl, fun hf => hn (mend_eq_nil.mpr hf)⟩
  · rintro (⟨rfl, hx⟩ | ⟨f, rfl, hn⟩)
    · exact Or.inl ⟨mend_concat ha [], hx⟩
    · refine Or.inr ⟨mend f, ?_, fun hf => hn (mend_eq_nil.mp hf)⟩
      rw [mend_concat ha, mend_concat ha]

/-! ## Constructs behind `<!` -/

/-- What lets a construct end that starts with an octet, of what is behind that. -/
def endsBang (kind : Construct) (b : UInt8) : Bytes → Bool :=
  match kind with
  | .comment => marked 0x2D 4 1 (0, b)
  | .cdata => marked 0x5D 0 1 (0, b)
  | _ => fun front => balanced 0 (b :: front)

theorem bangLength?_eq (kind : Construct) {b : UInt8} (hb : b ≠ 0x3E) (offset : Nat)
    (bytes : Bytes) : bangLength? kind [] offset (b :: bytes) =
      (cut (endsBang kind b) bytes).map fun c => 1 + c.1.length := by
  have repeated (mark : UInt8) (least : Nat) : markedLength? mark least 0 0 0 (b :: bytes) =
      (cut (marked mark least 1 (0, b)) bytes).map fun c => 1 + c.1.length := by
    rw [markedLength?, if_neg fun h => hb h.1, markedLength?_eq]
  have nested : doctypeLength? [] offset 0 0 (b :: bytes) =
      (cut (fun front => balanced 0 (b :: front)) bytes).map fun c => 1 + c.1.length := by
    rw [doctypeLength?_eq, cut, if_neg fun h => hb h.1, Option.map_map]
    congr 1
    funext c
    exact (Nat.zero_add _).trans (Nat.add_comm _ 1)
  cases kind with
  | comment => exact repeated 0x2D 4
  | cdata => exact repeated 0x5D 0
  | _ => exact nested

theorem cut_bang (kind : Construct) (hb : b.toNat < 0x80) (bytes : Bytes) :
    cut (endsBang kind b) (mend bytes) = (cut (endsBang kind b) bytes).map (Prod.map mend mend) := by
  refine cut_mend (fun f => ?_) bytes
  have nested : balanced 0 (b :: mend f) = balanced 0 (b :: f) := by
    rw [balanced, balanced, ← mend_cons hb, depth_mend]
  cases kind with
  | comment => exact marked_mend (by decide) (by decide) (by decide) b f
  | cdata => exact marked_mend (by decide) (by decide) (by decide) b f
  | _ => exact nested

end MapTables.Markup
