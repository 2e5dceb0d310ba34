import Mathlib.Logic.Relation
import MapTables.Proofs.Fallible
import MapTables.Proofs.Markup.Leftover
import MapTables.Proofs.Markup.Start

/-!
# Document types in pieces

A document type ends at a `>` with as many `<` as `>` before it, but only those are counted that
lie in the same piece. So a piece that ends while a declaration is open in it moves its end. No
other construct is read by the pieces it comes in, nor is text.
-/

namespace MapTables.Markup

def depth (bytes : Bytes) : Int := (bytes.count 0x3C : Int) - bytes.count 0x3E

/-- With these octets of the document type behind a `<` a piece ends, and a declaration in them is
still open. -/
structure Divides (ends : List Nat) (offset : Nat) (body inner : Bytes) : Prop where
  front : 0x21 :: inner <+: body
  doctype : body[1]?.bind bangKind? = some .doctype
  unfinished : doctypeLength? [] (offset + 1) 0 0 inner = none
  isOpen : depth inner ≠ 0
  divided : offset + 1 + inner.length ∈ ends

def DividesDoctype (ends : List Nat) (offset : Nat) (body : Bytes) : Prop :=
  ∃ inner, Divides ends offset body inner

theorem depth_cons (c : UInt8) (bytes : Bytes) : depth (c :: bytes) =
    (if c = 0x3C then 1 else if c = 0x3E then -1 else 0) + depth bytes := by
  unfold depth
  rw [List.count_cons, List.count_cons]
  by_cases ho : c = 0x3C
  · subst ho
    simp
    omega
  · by_cases hc : c = 0x3E
    · subst hc
      simp
      omega
    · simp [ho, hc]

/-- Where no declaration is open, the ends of pieces do not move the end of a document type. -/
theorem doctypeLength?_of_undivided {ends : List Nat} {offset n : Nat} {balance : Int}
    {body : Bytes} (h : ∀ inner, inner <+: body → doctypeLength? [] offset n balance inner = none →
      offset + inner.length ∈ ends → balance + depth inner = 0) :
    doctypeLength? ends offset n balance body = doctypeLength? [] offset n balance body := by
  induction body generalizing ends offset n balance with
  | nil => rfl
  | cons c rest ih =>
    -- Balance is nought where a piece ends, so to start again changes nothing.
    have hbalance : (if ends.head? == some offset then 0 else balance) = balance := by
      split
      · next hfresh =>
        have hmem : offset ∈ ends := List.mem_of_mem_head? (beq_iff_eq.mp hfresh)
        have := h [] (List.nil_prefix) rfl hmem
        simpa [depth] using this.symm
      · rfl
    unfold doctypeLength?
    simp only [hbalance, List.head?_nil, Option.none_beq_some, Bool.false_eq_true, if_false]
    split
    · rfl
    · next hgo =>
      refine ih fun inner hfront hnone hends => ?_
      have hsum : balance + depth (c :: inner) = 0 := by
        refine h _ (List.cons_prefix_cons.mpr ⟨rfl, hfront⟩) ?_ ?_
        · rw [doctypeLength?]
          simpa only [List.head?_nil, Option.none_beq_some, Bool.false_eq_true, if_false, hgo]
            using hnone
        · rw [List.length_cons, Nat.add_comm inner.length, ← Nat.add_assoc]
          split at hends
          · exact List.mem_of_mem_tail hends
          · exact hends
      rw [depth_cons] at hsum
      grind

theorem doctypeLength?_passing {ends : List Nat} {offset n : Nat} {balance : Int}
    {front rest : Bytes} (plain : ∀ b ∈ front, b ≠ 0x3C ∧ b ≠ 0x3E)
    (ahead : ∀ e ∈ ends.head?, offset + front.length ≤ e) :
    doctypeLength? ends offset n balance (front ++ rest) =
      doctypeLength? ends (offset + front.length) (n + front.length) balance rest := by
  induction front generalizing offset n with
  | nil => rfl
  | cons b front ih =>
    obtain ⟨hopen, hclose⟩ := plain b List.mem_cons_self
    have hfresh : (ends.head? == some offset) = false := by
      rw [beq_eq_false_iff_ne]
      intro he
      have := ahead offset he
      rw [List.length_cons] at this
      omega
    rw [List.cons_append, doctypeLength?]
    simp only [hfresh, Bool.false_eq_true, if_false, hopen, hclose, false_and]
    rw [ih (fun x hx => plain x (List.mem_cons_of_mem b hx)) fun e he => ?_]
    · rw [List.length_cons, Nat.add_right_comm, Nat.add_right_comm n]
      rfl
    · have := ahead e he
      rw [List.length_cons] at this
      omega

theorem doctypeLength?_opening {ends : List Nat} {offset n : Nat} {balance : Int}
    {front inner rest : Bytes} (plain : ∀ b ∈ front, b ≠ 0x3C ∧ b ≠ 0x3E)
    (inside : ∀ b ∈ inner, b ≠ 0x3C ∧ b ≠ 0x3E)
    (ahead : ∀ e ∈ ends.head?, offset + (front ++ 0x3C :: inner).length ≤ e) :
    doctypeLength? ends offset n balance (front ++ 0x3C :: inner ++ rest) =
      doctypeLength? ends (offset + (front ++ 0x3C :: inner).length)
        (n + (front ++ 0x3C :: inner).length) (balance + 1) rest := by
  simp only [List.length_append, List.length_cons] at ahead ⊢
  rw [List.append_assoc, doctypeLength?_passing plain fun e he => by have := ahead e he; omega]
  have hfresh : (ends.head? == some (offset + front.length)) = false := by
    rw [beq_eq_false_iff_ne]
    intro he
    have := ahead _ he
    omega
  rw [List.cons_append, doctypeLength?]
  simp only [hfresh, Bool.false_eq_true, if_false, if_true]
  rw [if_neg fun h => absurd h.1 (by decide)]
  rw [doctypeLength?_passing inside fun e he => by have := ahead e he; omega]
  simp only [Nat.add_assoc, Nat.add_comm 1]

/-- A piece that ends behind the second `<!` does move the end. -/
example :
    let more := Bytes.ofString "DOCTYPE a [<!ELEMENT b>]>"
    doctypeLength? [] 0 0 0 more = some 24 ∧ doctypeLength? [13] 0 0 0 more = some 22 := by
  decide +kernel

section Constructs

variable {fails : Bool} {ends : List Nat} {offset : Nat} {body more : Bytes}

theorem bangKind?_cases {b : UInt8} {kind : Construct} (h : bangKind? b = some kind) :
    kind = .comment ∨ kind = .cdata ∨ kind = .doctype := by
  unfold bangKind? at h
  split at h
  · exact Or.inl (Option.some.inj h).symm
  · split at h
    · exact Or.inr (Or.inl (Option.some.inj h).symm)
    · split at h
      · exact Or.inr (Or.inr (Option.some.inj h).symm)
      · cases h

theorem takeBang_of_undivided (h : ¬ DividesDoctype ends offset (0x21 :: more)) :
    takeBang fails ends (offset + 1) more = takeBang fails [] (offset + 1) more := by
  cases more with
  | nil => rfl
  | cons b tail =>
    unfold takeBang
    cases hk : bangKind? b with
    | none => simp only [hk]
    | some kind =>
      have hlength : bangLength? kind ends (offset + 1) (b :: tail) =
          bangLength? kind [] (offset + 1) (b :: tail) := by
        rcases bangKind?_cases hk with rfl | rfl | rfl
        · rfl
        · rfl
        · refine doctypeLength?_of_undivided fun inner hfront hnone hends => ?_
          rw [Int.zero_add]
          by_contra hopen
          exact h ⟨inner, List.cons_prefix_cons.mpr ⟨rfl, hfront⟩, hk, hnone, hopen, hends⟩
      simp only [hk, hlength]

theorem take_of_undivided (h : ¬ DividesDoctype ends offset body) :
    take fails ends offset body = take fails [] offset body := by
  cases body with
  | nil => rfl
  | cons b more =>
    unfold take
    by_cases hb : b = 0x21
    · subst hb
      simp only [takeBang_of_undivided h]
    · simp only [if_neg hb]

end Constructs

namespace Cursor

variable {c c' : Cursor}

/-! ## Readers of the same octets -/

/-- The reader takes one more construct of an input that does not fail. -/
def Takes (c c' : Cursor) : Prop :=
  ∃ taken e, take false (c.endsAhead.map Prod.fst) c.start c.body = .ok taken ∧
    effect c.openNames taken.part = .ok e ∧ c' = c.move taken e

/-- On its way the reader comes to a document type that is divided at an open declaration. -/
def MeetsDivided (c : Cursor) : Prop :=
  ∃ c', Relation.ReflTransGen Takes c c' ∧
    DividesDoctype (c'.endsAhead.map Prod.fst) c'.start c'.body

/-- Two readers at the same place, which have read the same. Their pieces may differ. -/
structure Beside (c c' : Cursor) : Prop where
  rest : c'.rest = c.rest
  offset : c'.offset = c.offset
  openNames : c'.openNames = c.openNames
  done : c'.done.toList.map Item.what = c.done.toList.map Item.what

theorem MeetsDivided.of_takes (h : c.Takes c') (hc : c'.MeetsDivided) : c.MeetsDivided := by
  obtain ⟨c'', hr, hd⟩ := hc
  exact ⟨c'', .head h hr, hd⟩

theorem take_of_unmet (h : ¬ c.MeetsDivided) :
    take false (c.endsAhead.map Prod.fst) c.start c.body = take false [] c.start c.body :=
  take_of_undivided fun hd => h ⟨c, .refl, hd⟩

namespace Beside

theorem start (h : Beside c c') : c'.start = c.start := by
  rw [Cursor.start, Cursor.start, h.rest, h.offset]

theorem body (h : Beside c c') : c'.body = c.body := by
  rw [Cursor.body, Cursor.body, h.rest]

theorem take_error (h : Beside c c') (hc : ¬ c.MeetsDivided) (hc' : ¬ c'.MeetsDivided) {f : Halt}
    (ht : take false (c.endsAhead.map Prod.fst) c.start c.body = .error f) :
    take false (c'.endsAhead.map Prod.fst) c'.start c'.body = .error f := by
  rw [take_of_unmet hc', h.start]
  rw [take_of_unmet hc] at ht
  exact take_congr_error h.body.symm ht

theorem take_ok (h : Beside c c') (hc : ¬ c.MeetsDivided) (hc' : ¬ c'.MeetsDivided)
    {taken : Taken c.body} (ht : take false (c.endsAhead.map Prod.fst) c.start c.body = .ok taken) :
    ∃ taken', take false (c'.endsAhead.map Prod.fst) c'.start c'.body = .ok taken' ∧
      taken'.part = taken.part ∧ taken'.advance = taken.advance ∧ taken'.rest = taken.rest := by
  rw [take_of_unmet hc', h.start]
  rw [take_of_unmet hc] at ht
  exact take_congr h.body.symm ht

theorem move (h : Beside c c') {taken : Taken c.body} {taken' : Taken c'.body}
    (ha : taken'.advance = taken.advance) (hr : taken'.rest = taken.rest) (e : Effect) :
    Beside (c.move taken e) (c'.move taken' e) := by
  have hoffset : c'.start + taken'.advance = c.start + taken.advance := by rw [h.start, ha]
  refine ⟨hr, hoffset, rfl, ?_⟩
  simp only [Cursor.move, Array.toList_appendList, List.map_append]
  rw [h.done, items_what e _ _ _ _ hoffset]

theorem halt (h : Beside c c') (fault : ReadFault) (position : Nat) :
    (c'.halt fault position).items.map Item.what = (c.halt fault position).items.map Item.what := by
  rw [halt_items, halt_items, List.map_append, List.map_append, h.done]

/-- Readers that meet no divided document type read the same. -/
theorem read (h : Beside c c') (hc : ¬ c.MeetsDivided) (hc' : ¬ c'.MeetsDivided) :
    (c'.read none).items.map Item.what = (c.read none).items.map Item.what := by
  induction hn : c.rest.length using Nat.strong_induction_on generalizing c c' with
  | _ n ih =>
    subst hn
    by_cases hne : c.body = []
    · rw [read_of_nothing hne, read_of_nothing (h.body.trans hne), h.done]
    rw [read_eq none hne, read_eq none (h.body ▸ hne)]
    cases ht : take false (c.endsAhead.map Prod.fst) c.start c.body with
    | error f =>
      have hfault : c'.faultAt none f = c.faultAt none f := by
        cases f <;> simp only [faultAt, h.start]
      simp only [Option.isSome_none, ht, h.take_error hc hc' ht]
      rw [hfault, h.halt]
    | ok taken =>
      obtain ⟨taken', ht', hp, ha, hr⟩ := h.take_ok hc hc' ht
      cases he : effect c.openNames taken.part with
      | error refusal =>
        obtain ⟨back, fault⟩ := refusal
        have he' : effect c'.openNames taken'.part = .error (back, fault) := by
          rw [h.openNames, hp]
          exact he
        simp only [Option.isSome_none, ht, ht', he, he']
        rw [h.start, ha, h.halt]
      | ok e =>
        have he' : effect c'.openNames taken'.part = .ok e := by
          rw [h.openNames, hp]
          exact he
        simp only [Option.isSome_none, ht, ht', he, he']
        have hlt : taken.rest.length < c.rest.length :=
          Nat.lt_of_le_of_lt taken.notLonger
            (length_body_lt fun hd => hne (by rw [Cursor.body, hd]; rfl))
        exact ih _ hlt (h.move ha hr e) (fun hm => hc (.of_takes ⟨taken, e, ht, he, rfl⟩ hm))
          (fun hm => hc' (.of_takes ⟨taken', e, ht', he', rfl⟩ hm)) rfl

end Beside

end Cursor

theorem beside_ofDelivery {d d' : Delivery}
    (h : (dropMark (d'.pieces.map Piece.octets)).flatten =
      (dropMark (d.pieces.map Piece.octets)).flatten) :
    Cursor.Beside (.ofDelivery d) (.ofDelivery d') := by
  refine ⟨?_, rfl, rfl, rfl⟩
  rw [rest_ofDelivery, rest_ofDelivery, h]

/-! ## Texts without a document type -/

def NamesDoctype (bytes : Bytes) : Prop :=
  [0x3C, 0x21, 0x44] <:+: bytes ∨ [0x3C, 0x21, 0x64] <:+: bytes

instance (bytes : Bytes) : Decidable (NamesDoctype bytes) :=
  inferInstanceAs (Decidable (_ ∨ _))

section Constructs

variable {fails : Bool} {ends : List Nat} {offset : Nat} {body : Bytes}

theorem suffix_of_cons {c : UInt8} {rest bytes : Bytes} (h : c :: rest <:+ bytes) :
    rest <:+ bytes :=
  (List.suffix_cons c rest).trans h

theorem upto_suffix {u : Upto body} (h : upto fails body = .ok u) : u.rest <:+ body := by
  unfold upto at h
  simp only at h
  split at h
  · split at h <;> cases h
    exact List.nil_suffix
  · next hd =>
    cases h
    exact suffix_of_cons (hd ▸ List.dropWhile_suffix _)

theorem takeTag_suffix {t : Taken body} (h : takeTag fails body = .ok t) : t.rest <:+ body := by
  unfold takeTag at h
  simp only at h
  split at h
  · split at h <;> cases h
    exact List.nil_suffix
  · next hd =>
    cases h
    exact suffix_of_cons (hd ▸ List.drop_suffix _ _)

theorem takeBang_suffix {t : Taken body} (h : takeBang fails ends offset body = .ok t) :
    t.rest <:+ body := by
  unfold takeBang at h
  split at h
  · cases h
  · split at h
    · cases h
    · split at h
      · cases h
      · split at h <;> cases h
        exact List.drop_suffix _ _

theorem take_suffix {t : Taken body} (h : take fails ends offset body = .ok t) :
    t.rest <:+ body := by
  unfold take at h
  split at h
  · cases h
  · next b more =>
    split at h
    · obtain ⟨u, hu, rfl⟩ := map_eq_ok.mp h
      exact upto_suffix hu
    · split at h
      · unfold takeDeclaration at h
        split at h
        · cases h
        · next u hu =>
          split at h <;> cases h
          exact upto_suffix hu
      · split at h
        · obtain ⟨t, ht, rfl⟩ := map_eq_ok.mp h
          exact (takeBang_suffix ht).trans (List.suffix_cons b more)
        · exact takeTag_suffix h

theorem namesDoctype_of_divides (h : DividesDoctype ends offset body) :
    NamesDoctype (0x3C :: body) := by
  obtain ⟨inner, ⟨more, rfl⟩, hd, -, -, -⟩ := h
  rw [List.cons_append] at hd ⊢
  cases hm : inner ++ more with
  | nil =>
    rw [hm] at hd
    cases hd
  | cons b tail =>
    rw [hm] at hd
    change bangKind? b = some .doctype at hd
    unfold bangKind? at hd
    split at hd
    · cases hd
    · split at hd
      · cases hd
      · split at hd
        · next hb =>
          rcases hb with rfl | rfl
          · exact Or.inl ⟨[], tail, rfl⟩
          · exact Or.inr ⟨[], tail, rfl⟩
        · cases hd

end Constructs

theorem NamesDoctype.mono {bytes bytes' : Bytes} (h : NamesDoctype bytes) (hs : bytes <:+: bytes') :
    NamesDoctype bytes' :=
  Or.imp (List.IsInfix.trans · hs) (List.IsInfix.trans · hs) h

theorem Cursor.Takes.rest {c c' : Cursor} (h : c.Takes c') : c'.rest <:+ c.rest := by
  obtain ⟨taken, e, ht, -, rfl⟩ := h
  exact (take_suffix ht).trans ((List.tail_suffix _).trans (List.dropWhile_suffix _))

theorem Cursor.rest_of_takes {c c' : Cursor} (h : Relation.ReflTransGen Takes c c') :
    c'.rest <:+ c.rest := by
  induction h with
  | refl => exact List.suffix_rfl
  | tail _ step ih => exact step.rest.trans ih

theorem Cursor.not_meetsDivided {c : Cursor} (h : ¬ NamesDoctype c.rest) : ¬ c.MeetsDivided := by
  rintro ⟨c', hr, hd⟩
  have hne : c'.body ≠ [] := by
    obtain ⟨inner, hf, -⟩ := hd
    intro he
    rw [he] at hf
    cases List.prefix_nil.mp hf
  obtain ⟨text, -, hrest⟩ := rest_of_body hne
  refine h ((namesDoctype_of_divides hd).mono ?_)
  have hs : 0x3C :: c'.body <:+ c'.rest := hrest ▸ List.suffix_append _ _
  exact (hs.trans (rest_of_takes hr)).isInfix

/-! ## Texts with a document type in front -/

theorem takeBang_doctype {ends : List Nat} {offset n : Nat} {more : Bytes}
    (hd : more.head? = some 0x44) (hl : doctypeLength? ends offset 0 0 more = some n)
    (hf : bangFault? .doctype (more.take n) = none) :
    ∃ h, takeBang false ends offset more = .ok ⟨.passed, n + 2, more.drop (n + 1), h⟩ := by
  cases more with
  | nil => cases hd
  | cons b tail =>
    obtain rfl := Option.some.inj hd
    have hkind : bangKind? 0x44 = some .doctype := rfl
    have hlength : bangLength? .doctype ends offset (0x44 :: tail) = some n := hl
    refine ⟨by simp only [List.length_drop]; omega, ?_⟩
    unfold takeBang
    simp only [hkind, hlength, hf]

theorem bangFault?_append {front : Bytes} (h : bangFault? .doctype front = none) (more : Bytes) :
    bangFault? .doctype (front ++ more) = none := by
  unfold bangFault? startsWith at h ⊢
  simp only [List.isPrefixOf_iff_prefix] at h ⊢
  split at h
  · next hword =>
    split at h
    · cases h
    · next hspace =>
      rw [List.map_append, if_pos (hword.trans (List.prefix_append _ _)), if_neg]
      rw [List.drop_append, List.all_append, Bool.and_eq_true]
      exact fun hall => hspace hall.1
  · cases h

theorem read_doctype {c : Cursor} {n : Nat} {more : Bytes} (hrest : c.rest = 0x3C :: 0x21 :: more)
    (hd : more.head? = some 0x44)
    (hl : doctypeLength? (c.endsAhead.map Prod.fst) (c.start + 1) 0 0 more = some n)
    (hf : bangFault? .doctype (more.take n) = none) :
    c.read none = Cursor.read none
      { c with rest := more.drop (n + 1), offset := c.start + (n + 2), ends := c.endsAhead } := by
  have hbody : c.body = 0x21 :: more := by
    rw [Cursor.body, hrest]
    rfl
  obtain ⟨h, hbang⟩ := takeBang_doctype hd hl hf
  have htake : take false (c.endsAhead.map Prod.fst) c.start (0x21 :: more) =
      .ok ⟨.passed, n + 2, more.drop (n + 1), Nat.le_succ_of_le h⟩ := by
    unfold take
    simp only [hbang]
    rfl
  obtain ⟨taken, ht, hp, ha, hr⟩ := Cursor.take_congr hbody.symm htake
  have heffect : effect c.openNames taken.part = .ok { openNames := c.openNames } := by
    rw [hp]
    rfl
  rw [Cursor.read_of_take none ht heffect, Cursor.move, ha, hr]
  simp [Effect.items]

theorem items_of_doctype {u : Delivery} (unbroken : u.failure = none) {n : Nat} {more : Bytes}
    (htext : (dropMark (u.pieces.map Piece.octets)).flatten = 0x3C :: 0x21 :: more)
    (hd : more.head? = some 0x44)
    (hl : doctypeLength? ((stops 0 (dropMark (u.pieces.map Piece.octets))).dropWhile (· ≤ 1))
      2 0 0 more = some n)
    (hf : bangFault? .doctype (more.take n) = none) (hn : ¬ NamesDoctype (more.drop (n + 1))) :
    (Transcript.ofDelivery u).items.map Item.what =
      (Cursor.read none { rest := more.drop (n + 1), offset := n + 3, ends := [] }).items.map
        Item.what := by
  have hrest : (Cursor.ofDelivery u).rest = 0x3C :: 0x21 :: more := by rw [rest_ofDelivery, htext]
  have hstart : (Cursor.ofDelivery u).start = 1 := by
    rw [Cursor.start, hrest]
    rfl
  have hends : (Cursor.ofDelivery u).endsAhead.map Prod.fst =
      (stops 0 (dropMark (u.pieces.map Piece.octets))).dropWhile (· ≤ 1) := by
    rw [Cursor.endsAhead, hstart, ← octets_withoutMark, ← endsFrom_fst, List.dropWhile_map]
    rfl
  rw [items_ofDelivery fun _ => unbroken, unbroken,
    read_doctype hrest hd (by rw [hends, hstart]; exact hl) hf]
  refine Cursor.Beside.read (c := ⟨_, _, _, _, _⟩) ⟨rfl, ?_, rfl, rfl⟩ (Cursor.not_meetsDivided hn)
    (Cursor.not_meetsDivided hn)
  simp only [hstart]
  omega

end MapTables.Markup
