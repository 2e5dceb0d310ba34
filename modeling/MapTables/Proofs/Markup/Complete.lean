import MapTables.Markup.Construct
import MapTables.Proofs.Fallible

/-!
# Complete constructs

A construct that ends with its `>` is taken the same whatever follows it and however the
octets come, as long as the pieces up to its end are the same.
-/

namespace MapTables.Markup

/-! ## Where pieces end -/

/-- The ends of pieces below a bound are the same. -/
def EndsAgree (bound : Nat) (ends ends' : List Nat) : Prop :=
  ends.takeWhile (· < bound) = ends'.takeWhile (· < bound)

variable {bound offset : Nat} {ends ends' : List Nat}

theorem EndsAgree.cases (h : EndsAgree bound ends ends') :
    (∃ e es es', e < bound ∧ ends = e :: es ∧ ends' = e :: es' ∧ EndsAgree bound es es') ∨
      ((∀ e ∈ ends.head?, bound ≤ e) ∧ ∀ e ∈ ends'.head?, bound ≤ e) := by
  unfold EndsAgree at h ⊢
  cases ends with
  | nil =>
    cases ends' with
    | nil => exact Or.inr ⟨by simp, by simp⟩
    | cons e es =>
      by_cases he : e < bound
      · simp [he] at h
      · exact Or.inr ⟨by simp, by simpa using he⟩
  | cons e es =>
    by_cases he : e < bound
    · cases ends' with
      | nil => simp [he] at h
      | cons e' es' =>
        by_cases he' : e' < bound
        · simp only [List.takeWhile_cons, he, he', decide_true, if_true, List.cons.injEq] at h
          obtain ⟨rfl, h⟩ := h
          exact Or.inl ⟨e, es, es', he, rfl, rfl, h⟩
        · simp [he, he'] at h
    · refine Or.inr ⟨by simpa using he, fun e' he' => ?_⟩
      cases ends' with
      | nil => simp at he'
      | cons x es' =>
        simp only [List.head?_cons, Option.mem_some_iff] at he'
        subst he'
        by_cases hx : x < bound
        · simp [he, hx] at h
        · omega

theorem EndsAgree.mono {less : Nat} (h : EndsAgree bound ends ends') (hl : less ≤ bound) :
    EndsAgree less ends ends' := by
  have twice (l : List Nat) :
      (l.takeWhile (· < bound)).takeWhile (· < less) = l.takeWhile (· < less) := by
    induction l with
    | nil => rfl
    | cons e l ih =>
      by_cases he : e < less
      · simp [he, Nat.lt_of_lt_of_le he hl, ih]
      · by_cases hb : e < bound <;> simp [he, hb]
  unfold EndsAgree at h ⊢
  rw [← twice ends, h, twice ends']

theorem EndsAgree.head (h : EndsAgree bound ends ends') (ho : offset < bound) :
    (ends.head? == some offset) = (ends'.head? == some offset) := by
  rcases h.cases with ⟨e, es, es', -, rfl, rfl, -⟩ | ⟨h1, h2⟩
  · rfl
  · have hn {l : List Nat} (hl : ∀ e ∈ l.head?, bound ≤ e) : (l.head? == some offset) = false := by
      cases l with
      | nil => rfl
      | cons e l =>
        have := hl e (by simp)
        simp only [List.head?_cons, beq_eq_false_iff_ne, ne_eq, Option.some.injEq]
        omega
    rw [hn h1, hn h2]

theorem EndsAgree.tail (h : EndsAgree bound ends ends') (ho : offset < bound)
    (hf : (ends.head? == some offset) = true) : EndsAgree bound ends.tail ends'.tail := by
  rcases h.cases with ⟨e, es, es', -, rfl, rfl, ht⟩ | ⟨h1, -⟩
  · exact ht
  · have := h1 offset (by simpa using hf)
    omega

theorem EndsAgree.pass (h : EndsAgree bound ends ends') (ho : offset < bound) :
    EndsAgree bound (if ends.head? == some offset then ends.tail else ends)
      (if ends'.head? == some offset then ends'.tail else ends') := by
  rw [← h.head ho]
  split
  · next hf => exact h.tail ho hf
  · exact h

theorem EndsAgree.dropWhile (h : EndsAgree bound ends ends') (ho : offset < bound) :
    EndsAgree bound (ends.dropWhile (· ≤ offset)) (ends'.dropWhile (· ≤ offset)) := by
  induction ends generalizing ends' with
  | nil =>
    rcases h.cases with ⟨_, _, _, _, he, _⟩ | ⟨-, h2⟩
    · cases he
    · cases ends' with
      | nil => exact h
      | cons e es =>
        have := h2 e (by simp)
        rw [List.dropWhile_cons, if_neg (by simp only [decide_eq_true_eq]; omega)]
        exact h
  | cons e es ih =>
    rcases h.cases with ⟨e', es1, es', he, hc, rfl, h'⟩ | ⟨h1, h2⟩
    · cases hc
      rw [List.dropWhile_cons, List.dropWhile_cons]
      split
      · exact ih h'
      · exact h
    · have := h1 e (by simp)
      rw [List.dropWhile_cons, if_neg (by simp only [decide_eq_true_eq]; omega)]
      cases ends' with
      | nil => exact h
      | cons x es' =>
        have := h2 x (by simp)
        rw [List.dropWhile_cons, if_neg (by simp only [decide_eq_true_eq]; omega)]
        exact h

/-! ## Where constructs end -/

theorem tagLength_complete {quote : Option UInt8} {n : Nat} {body : Bytes}
    (h : tagLength quote n body < n + body.length) : ∃ used rest, body = used ++ 0x3E :: rest ∧
      ∀ rest', tagLength quote n (used ++ 0x3E :: rest') = n + used.length := by
  induction body generalizing quote n with
  | nil => simp [tagLength] at h
  | cons b body ih =>
    have next {quote' : Option UInt8} (hq : ∀ l, tagLength quote n (b :: l) = tagLength quote' (n + 1) l) :
        ∃ used rest, b :: body = used ++ 0x3E :: rest ∧
          ∀ rest', tagLength quote n (used ++ 0x3E :: rest') = n + used.length := by
      rw [hq, List.length_cons, Nat.add_comm body.length, ← Nat.add_assoc] at h
      obtain ⟨used, rest, rfl, hu⟩ := ih h
      refine ⟨b :: used, rest, rfl, fun rest' => ?_⟩
      rw [List.cons_append, hq, hu, List.length_cons]
      omega
    cases quote with
    | some q => exact next fun l => by rw [tagLength]
    | none =>
      by_cases hb : b = 0x3E
      · subst hb
        exact ⟨[], body, rfl, fun rest' => by simp [tagLength]⟩
      · by_cases hq : b = 0x22 ∨ b = 0x27
        · exact next fun l => by rw [tagLength, if_neg hb, if_pos hq]
        · exact next fun l => by rw [tagLength, if_neg hb, if_neg hq]

theorem markedLength?_complete {mark : UInt8} {least n m : Nat} {a b : UInt8} {body : Bytes}
    (h : markedLength? mark least n a b body = some m) : ∃ used rest, body = used ++ 0x3E :: rest ∧
      m = n + used.length ∧
      ∀ rest', markedLength? mark least n a b (used ++ 0x3E :: rest') = some m := by
  induction body generalizing n a b with
  | nil => cases h
  | cons c body ih =>
    rw [markedLength?] at h
    split at h
    · next hc =>
      cases h
      obtain ⟨rfl, hc⟩ := hc
      exact ⟨[], body, rfl, rfl, fun rest' => by rw [List.nil_append, markedLength?, if_pos ⟨rfl, hc⟩]⟩
    · next hc =>
      obtain ⟨used, rest, rfl, rfl, hu⟩ := ih h
      refine ⟨c :: used, rest, rfl, by rw [List.length_cons]; omega, fun rest' => ?_⟩
      rw [List.cons_append, markedLength?, if_neg hc]
      exact hu rest'

/-- The end of a document type depends on the pieces it comes in. -/
theorem doctypeLength?_complete {n m : Nat} {balance : Int} {body : Bytes}
    (h : doctypeLength? ends offset n balance body = some m) :
    ∃ used rest, body = used ++ 0x3E :: rest ∧ m = n + used.length ∧
      ∀ ends' rest', EndsAgree (offset + used.length + 1) ends ends' →
        doctypeLength? ends' offset n balance (used ++ 0x3E :: rest') = some m := by
  induction body generalizing ends offset n balance with
  | nil => cases h
  | cons c body ih =>
    rw [doctypeLength?] at h
    by_cases hc : c = 0x3E ∧ (if (ends.head? == some offset) = true then 0 else balance) = 0
    · rw [if_pos hc] at h
      cases h
      obtain ⟨rfl, hc⟩ := hc
      refine ⟨[], body, rfl, rfl, fun ends' rest' ha => ?_⟩
      rw [List.nil_append, doctypeLength?, ← ha.head (by simp), if_pos ⟨rfl, hc⟩]
    · rw [if_neg hc] at h
      obtain ⟨used, rest, rfl, rfl, hu⟩ := ih h
      refine ⟨c :: used, rest, rfl, by rw [List.length_cons]; omega, fun ends' rest' ha => ?_⟩
      have ho : offset < offset + (c :: used).length + 1 := by rw [List.length_cons]; omega
      rw [List.cons_append, doctypeLength?, ← ha.head ho, if_neg hc]
      apply hu
      have hp := ha.pass ho
      rw [← ha.head ho] at hp
      rw [show offset + 1 + used.length + 1 = offset + (c :: used).length + 1 by rw [List.length_cons]; omega]
      exact hp

/-! ## What is taken -/

/-- A construct that was taken up to its `>` is taken so again, whatever follows. The pieces may
differ behind the `>`, and the input may fail there. -/
def TakesAlike (ends : List Nat) (offset : Nat) (body : Bytes) (t : Taken body)
    (take : Bool → List Nat → (body : Bytes) → Except Halt (Taken body)) : Prop :=
  ∃ used, body = used ++ 0x3E :: t.rest ∧ t.advance = used.length + 1 ∧
    ∀ fails ends' rest, EndsAgree (offset + used.length + 1) ends ends' →
      ∃ h, take fails ends' (used ++ 0x3E :: rest) = .ok ⟨t.part, t.advance, rest, h⟩

variable {fails : Bool} {body : Bytes} {t : Taken body}

theorem takeTag_of_length (fails : Bool) {used rest : Bytes}
    (h : tagLength none 0 (used ++ 0x3E :: rest) = used.length) :
    ∃ hl, takeTag fails (used ++ 0x3E :: rest) = .ok ⟨.opens used, used.length + 1, rest, hl⟩ := by
  unfold takeTag
  simp only
  split
  · next hd => simp [h] at hd
  · next hd =>
    simp only [h, List.drop_left, List.cons.injEq] at hd
    obtain ⟨-, rfl⟩ := hd
    exact ⟨by simp only [List.length_append, List.length_cons]; omega, by simp [h]⟩

theorem takeTag_complete (h : takeTag true body = .ok t) :
    TakesAlike ends offset body t fun fails _ body => takeTag fails body := by
  unfold takeTag at h
  simp only at h
  split at h
  · cases h
  · next c rest hd =>
    have hlt : tagLength none 0 body < 0 + body.length := by
      have := congrArg List.length hd
      simp only [List.length_drop, List.length_cons] at this
      omega
    obtain ⟨used, rest', rfl, hu⟩ := tagLength_complete hlt
    simp only [Nat.zero_add] at hu
    cases h
    simp only [hu, List.drop_left, List.cons.injEq] at hd
    refine ⟨used, by simp [hd.2], by simp [hu], fun fails _ rest'' _ => ?_⟩
    obtain ⟨hl, htake⟩ := takeTag_of_length fails (hu rest'')
    exact ⟨hl, by simp [htake, hu]⟩

theorem span_of_dropWhile {p : UInt8 → Bool} {body rest : Bytes} {c : UInt8}
    (h : body.dropWhile p = c :: rest) : body = body.takeWhile p ++ c :: rest ∧ p c = false ∧
      ∀ b ∈ body.takeWhile p, p b = true := by
  refine ⟨by rw [← h, List.takeWhile_append_dropWhile], ?_, fun b hb => ?_⟩
  · have := List.head?_dropWhile_not p body
    rw [h] at this
    exact this
  · have hall : (body.takeWhile p).all p = true := List.all_takeWhile
    exact List.all_eq_true.mp hall b hb

theorem span_append {p : UInt8 → Bool} {front : Bytes} {c : UInt8} (hf : ∀ b ∈ front, p b = true)
    (hc : p c = false) (rest : Bytes) :
    (front ++ c :: rest).takeWhile p = front ∧ (front ++ c :: rest).dropWhile p = c :: rest := by
  rw [List.takeWhile_append_of_pos hf, List.dropWhile_append_of_pos hf]
  simp [hc]

theorem upto_append (fails : Bool) {content : Bytes} (hc : ∀ b ∈ content, isContent b = true)
    (rest : Bytes) :
    ∃ h, upto fails (content ++ 0x3E :: rest) = .ok ⟨content, content.length + 1, rest, h⟩ := by
  obtain ⟨ht, hd⟩ := span_append (c := 0x3E) hc (by decide) rest
  unfold upto
  simp only [ht]
  split
  · next hd' => rw [hd] at hd'; cases hd'
  · next hd' =>
    rw [hd] at hd'
    cases hd'
    exact ⟨by simp only [List.length_append, List.length_cons]; omega, rfl⟩

theorem upto_complete {u : Upto body} (h : upto true body = .ok u) :
    body = u.content ++ 0x3E :: u.rest ∧ u.advance = u.content.length + 1 ∧
      ∀ b ∈ u.content, isContent b = true := by
  unfold upto at h
  simp only at h
  split at h
  · cases h
  · next c rest hd =>
    obtain ⟨hb, hc, hf⟩ := span_of_dropWhile hd
    have : c = 0x3E := by simpa [isContent] using hc
    subst this
    cases h
    exact ⟨hb, rfl, hf⟩

theorem takeEndTag_complete (h : takeEndTag true body = .ok t) :
    TakesAlike ends offset body t fun fails _ body => takeEndTag fails body := by
  unfold takeEndTag at h
  obtain ⟨u, hu, rfl⟩ := map_eq_ok.mp h
  obtain ⟨hb, ha, hc⟩ := upto_complete hu
  refine ⟨u.content, hb, ha, fun fails _ rest _ => ?_⟩
  obtain ⟨hl, he⟩ := upto_append fails hc rest
  refine ⟨hl, ?_⟩
  unfold takeEndTag
  simp only [he, ha]
  rfl

theorem takeDeclaration_complete (h : takeDeclaration true body = .ok t) :
    TakesAlike ends offset body t fun fails _ body => takeDeclaration fails body := by
  unfold takeDeclaration at h
  split at h
  · cases h
  · next u hu =>
    split at h
    · next hq =>
      cases h
      obtain ⟨hb, ha, hc⟩ := upto_complete hu
      refine ⟨u.content, hb, ha, fun fails _ rest _ => ?_⟩
      obtain ⟨hl, he⟩ := upto_append fails hc rest
      refine ⟨hl, ?_⟩
      unfold takeDeclaration
      simp only [he, ha]
      rw [if_pos hq]
    · cases h

theorem bangLength?_complete {kind : Construct} {m : Nat}
    (h : bangLength? kind ends offset body = some m) : ∃ used rest, body = used ++ 0x3E :: rest ∧
      m = used.length ∧ ∀ ends' rest', EndsAgree (offset + used.length + 1) ends ends' →
        bangLength? kind ends' offset (used ++ 0x3E :: rest') = some m := by
  have marked {mark : UInt8} {least : Nat} (h : markedLength? mark least 0 0 0 body = some m) :
      ∃ used rest, body = used ++ 0x3E :: rest ∧ m = used.length ∧
        ∀ rest', markedLength? mark least 0 0 0 (used ++ 0x3E :: rest') = some m := by
    obtain ⟨used, rest, hb, hm, hu⟩ := markedLength?_complete h
    exact ⟨used, rest, hb, by omega, hu⟩
  have other (h : doctypeLength? ends offset 0 0 body = some m) :
      ∃ used rest, body = used ++ 0x3E :: rest ∧ m = used.length ∧
        ∀ ends' rest', EndsAgree (offset + used.length + 1) ends ends' →
          doctypeLength? ends' offset 0 0 (used ++ 0x3E :: rest') = some m := by
    obtain ⟨used, rest, hb, hm, hu⟩ := doctypeLength?_complete h
    exact ⟨used, rest, hb, by omega, hu⟩
  cases kind with
  | comment =>
    obtain ⟨used, rest, hb, hm, hu⟩ := marked h
    exact ⟨used, rest, hb, hm, fun _ rest' _ => hu rest'⟩
  | cdata =>
    obtain ⟨used, rest, hb, hm, hu⟩ := marked h
    exact ⟨used, rest, hb, hm, fun _ rest' _ => hu rest'⟩
  | _ => exact other h

theorem takeBang_complete {more : Bytes} {t : Taken more} (h : takeBang true ends offset more = .ok t) :
    ∃ used, more = used ++ 0x3E :: t.rest ∧ t.advance = used.length + 2 ∧
      ∀ fails ends' rest, EndsAgree (offset + used.length + 1) ends ends' →
        ∃ h, takeBang fails ends' offset (used ++ 0x3E :: rest) =
          .ok ⟨t.part, t.advance, rest, h⟩ := by
  unfold takeBang at h
  split at h
  · cases h
  · next b tail =>
    split at h
    · cases h
    · next kind hk =>
      split at h
      · cases h
      · next n hn =>
        split at h
        · cases h
        · next hf =>
          obtain ⟨used, rest, hb, rfl, hu⟩ := bangLength?_complete hn
          -- The construct is announced by an octet, which is not the `>` itself.
          cases used with
          | nil =>
            cases hb
            cases hk
          | cons c used =>
            obtain ⟨rfl, rfl⟩ := List.cons.inj hb
            cases h
            refine ⟨b :: used, by simp, rfl, fun fails ends' rest' ha => ?_⟩
            have hn' := hu ends' rest' ha
            have hf' : bangFault? kind ((b :: (used ++ 0x3E :: rest')).take (b :: used).length) =
                none := by
              simpa using hf
            rw [List.cons_append] at hn' ⊢
            unfold takeBang
            simp only [hk, hn', hf']
            exact ⟨by simp only [List.length_append, List.length_cons]; omega, by simp⟩

theorem TakesAlike.of_eq {b : UInt8} {more : Bytes} {t : Taken (b :: more)}
    {f g : Bool → List Nat → (body : Bytes) → Except Halt (Taken body)}
    (h : TakesAlike ends offset (b :: more) t f)
    (hfg : ∀ fails ends more, f fails ends (b :: more) = g fails ends (b :: more)) :
    TakesAlike ends offset (b :: more) t g := by
  obtain ⟨used, he, ha, hu⟩ := h
  refine ⟨used, he, ha, fun fails ends' rest hag => ?_⟩
  obtain ⟨hl, hr⟩ := hu fails ends' rest hag
  refine ⟨hl, ?_⟩
  cases used with
  | nil =>
    obtain ⟨hb, -⟩ := List.cons.inj he
    rw [← hr]
    exact hb ▸ (hfg fails ends' rest).symm
  | cons c used =>
    obtain ⟨hb, -⟩ := List.cons.inj he
    rw [← hr]
    subst hb
    exact (hfg fails ends' _).symm

theorem take_complete (h : take true ends offset body = .ok t) :
    TakesAlike ends offset body t fun fails ends body => take fails ends offset body := by
  unfold take at h
  split at h
  · cases h
  · next b more =>
    split at h
    · next hb =>
      refine (takeEndTag_complete h).of_eq fun fails ends' more' => ?_
      simp only [take, if_pos hb]
    · next hb1 =>
      split at h
      · next hb2 =>
        refine (takeDeclaration_complete h).of_eq fun fails ends' more' => ?_
        simp only [take, if_neg hb1, if_pos hb2]
      · next hb2 =>
        split at h
        · next hb3 =>
          obtain ⟨s, hs, rfl⟩ := map_eq_ok.mp h
          obtain ⟨used, he, ha, hu⟩ := takeBang_complete hs
          subst hb3
          refine ⟨0x21 :: used, congrArg (List.cons 0x21) he, ha, fun fails ends' rest hag => ?_⟩
          obtain ⟨hl, hr⟩ := hu fails ends' rest (by
            rwa [show offset + 1 + used.length + 1 = offset + (0x21 :: used).length + 1 by
              rw [List.length_cons]; omega])
          refine ⟨by simp only [List.length_append, List.length_cons] at hl ⊢; omega, ?_⟩
          change take fails ends' offset (0x21 :: (used ++ 0x3E :: rest)) = _
          simp only [take, if_neg hb1, if_neg hb2, if_true, hr]
          rfl
        · next hb3 =>
          refine (takeTag_complete h).of_eq fun fails ends' more' => ?_
          simp only [take, if_neg hb1, if_neg hb2, if_neg hb3]

theorem take_of_complete (h : take true ends offset body = .ok t) (fails : Bool) :
    take fails ends offset body = .ok t := by
  obtain ⟨part, advance, rest, hl⟩ := t
  obtain ⟨used, he, -, hu⟩ := take_complete h
  simp only at he
  subst he
  obtain ⟨_, hr⟩ := hu fails ends rest rfl
  exact hr

end MapTables.Markup
