import Mathlib.Data.List.TakeWhile
import MapTables.Proofs.Markup.Reading

/-!
# Where the input ends

What is read of a text behind its last complete construct. A tag, an end tag or a
declaration may end with the input instead of its `>`.
-/

namespace MapTables.Markup

/-- A construct that goes on to the end of the input and is no fault there, by what stands behind
its `<`, with what it is. -/
inductive Unended : Bytes → Part → Prop
  /-- The input ends with the `<`, or there is none. -/
  | nothing : Unended [] .passed
  | declaration {more : Bytes} (unmarked : 0x3E ∉ more) (long : 1 < more.length)
      (last : more.getLast? = some 0x3F) : Unended (0x3F :: more) .passed
  | endTag {more : Bytes} (unmarked : 0x3E ∉ more) : Unended (0x2F :: more) (.closes (0x2F :: more))
  | tag {b : UInt8} {more : Bytes} (isTag : b ≠ 0x2F ∧ b ≠ 0x3F ∧ b ≠ 0x21)
      (unmarked : tagLength none 0 (b :: more) = (b :: more).length) :
      Unended (b :: more) (.opens (b :: more))

variable {fails : Bool} {ends : List Nat} {offset : Nat} {body : Bytes} {part part' : Part}

theorem Unended.unique (h : Unended body part) (h' : Unended body part') : part = part' := by
  cases h with
  | nothing => cases h'; rfl
  | declaration => 
    cases h' with
    | declaration => rfl
    | tag isTag => exact absurd rfl isTag.2.1
  | endTag =>
    cases h' with
    | endTag => rfl
    | tag isTag => exact absurd rfl isTag.1
  | tag isTag =>
    cases h' with
    | declaration => exact absurd rfl isTag.2.1
    | endTag => exact absurd rfl isTag.1
    | tag => rfl

/-! ## Constructs without an end -/

theorem isContent_of_unmarked (h : 0x3E ∉ body) : ∀ b ∈ body, isContent b = true := by
  intro b hb
  simp only [isContent, bne_iff_ne, ne_eq]
  rintro rfl
  exact h hb

theorem upto_of_unmarked (h : 0x3E ∉ body) (fails : Bool) : upto fails body =
    if fails then .error (.starved body.length)
    else .ok ⟨body, body.length, [], Nat.zero_le _⟩ := by
  have ht : body.takeWhile isContent = body :=
    List.takeWhile_eq_self_iff.mpr (isContent_of_unmarked h)
  have hd : body.dropWhile isContent = [] :=
    List.dropWhile_eq_nil_iff.mpr (isContent_of_unmarked h)
  unfold upto
  simp only
  split
  · simp only [ht]
  · next hd' => rw [hd] at hd'; cases hd'

theorem upto_of_marked (h : 0x3E ∈ body) : ∃ u, ∀ fails, upto fails body = .ok u := by
  cases hd : body.dropWhile isContent with
  | nil => exact absurd (List.dropWhile_eq_nil_iff.mp hd 0x3E h) (by decide)
  | cons c rest =>
    refine ⟨⟨body.takeWhile isContent, (body.takeWhile isContent).length + 1, rest,
      length_le_of_dropWhile hd⟩, fun fails => ?_⟩
    unfold upto
    simp only
    split
    · next hd' => rw [hd] at hd'; cases hd'
    · next hd' => rw [hd] at hd'; cases hd'; rfl

theorem takeTag_of_unmarked (h : tagLength none 0 body = body.length) (fails : Bool) :
    takeTag fails body = if fails then .error (.starved body.length)
      else .ok ⟨.opens body, 0, [], Nat.zero_le _⟩ := by
  have hd : body.drop (tagLength none 0 body) = [] := by rw [h, List.drop_length]
  unfold takeTag
  simp only
  split
  · rfl
  · next hd' => rw [hd] at hd'; cases hd'

theorem tagLength_le (quote : Option UInt8) (n : Nat) (body : Bytes) :
    tagLength quote n body ≤ n + body.length := by
  fun_induction tagLength quote n body with
  | case1 => exact Nat.le_add_right _ _
  | case2 => exact Nat.le_add_right _ _
  | case3 _ _ _ _ _ ih => rw [List.length_cons]; omega
  | case4 _ _ _ _ _ ih => rw [List.length_cons]; omega
  | case5 _ _ _ _ ih => rw [List.length_cons]; omega

theorem takeTag_of_marked (h : tagLength none 0 body ≠ body.length) :
    ∃ t, ∀ fails, takeTag fails body = .ok t := by
  have hle := tagLength_le none 0 body
  cases hd : body.drop (tagLength none 0 body) with
  | nil => exact absurd (List.drop_eq_nil_iff.mp hd) (by omega)
  | cons c rest =>
    refine ⟨⟨.opens (body.take (tagLength none 0 body)), tagLength none 0 body + 1, rest,
      length_le_of_drop hd⟩, fun fails => ?_⟩
    unfold takeTag
    simp only
    split
    · next hd' => rw [hd] at hd'; cases hd'
    · next hd' => rw [hd] at hd'; cases hd'; rfl

theorem takeBang_of_failed {h : Halt} (hf : takeBang true ends offset body = .error h) :
    ∃ h', takeBang false ends offset body = .error h' := by
  unfold takeBang at hf ⊢
  split
  · exact ⟨_, rfl⟩
  · next b tail =>
    simp only at hf
    split
    · exact ⟨_, rfl⟩
    · next kind hk =>
      simp only [hk] at hf
      split
      · exact ⟨_, rfl⟩
      · next n hn =>
        simp only [hn] at hf
        split
        · exact ⟨_, rfl⟩
        · next hb => simp only [hb] at hf; cases hf

/-! ## What is taken at the end -/

theorem unmarked_cons {b : UInt8} {more : Bytes} (hb : b ≠ 0x3E) (h : 0x3E ∉ more) :
    0x3E ∉ b :: more := by
  rw [List.mem_cons, not_or]
  exact ⟨Ne.symm hb, h⟩

theorem Unended.take (h : Unended body part) (hne : body ≠ []) (ends : List Nat) (offset : Nat) :
    (∃ f, take true ends offset body = .error f) ∧
      ∃ t, take false ends offset body = .ok t ∧ t.part = part ∧ t.rest = [] := by
  cases h with
  | nothing => exact absurd rfl hne
  | @declaration more unmarked long last =>
    have hu := upto_of_unmarked (unmarked_cons (b := 0x3F) (by decide) unmarked)
    have hl : 2 < (0x3F :: more).length ∧ (0x3F :: more).getLast? = some 0x3F := by
      refine ⟨by rw [List.length_cons]; omega, ?_⟩
      rw [List.getLast?_cons, last]
      rfl
    refine ⟨⟨.starved (0x3F :: more).length, ?_⟩, ⟨.passed, (0x3F :: more).length, [], Nat.zero_le _⟩, ?_, rfl, rfl⟩
    · simp only [Markup.take, takeDeclaration, hu]
      rfl
    · simp only [Markup.take, takeDeclaration, hu]
      rw [if_neg (by decide), if_pos trivial]
      simp only [Bool.false_eq_true, if_false, if_pos hl]
  | @endTag more unmarked =>
    have hu := upto_of_unmarked (unmarked_cons (b := 0x2F) (by decide) unmarked)
    refine ⟨⟨.starved (0x2F :: more).length, ?_⟩, ⟨.closes (0x2F :: more), (0x2F :: more).length, [], Nat.zero_le _⟩, ?_, rfl, rfl⟩
    · simp only [Markup.take, takeEndTag, hu]
      rfl
    · simp only [Markup.take, takeEndTag, hu]
      rfl
  | @tag b more isTag unmarked =>
    have hu := takeTag_of_unmarked unmarked
    refine ⟨⟨.starved (b :: more).length, ?_⟩, ⟨.opens (b :: more), 0, [], Nat.zero_le _⟩, ?_, rfl, rfl⟩
    · simp only [Markup.take, if_neg isTag.1, if_neg isTag.2.1, if_neg isTag.2.2, hu]
      rfl
    · simp only [Markup.take, if_neg isTag.1, if_neg isTag.2.1, if_neg isTag.2.2, hu]
      rfl

theorem takeEndTag_of_failed {f : Halt} {more : Bytes}
    (h : takeEndTag true (0x2F :: more) = .error f) :
    Unended (0x2F :: more) (.closes (0x2F :: more)) := by
  apply Unended.endTag
  intro hm
  obtain ⟨u, hu⟩ := upto_of_marked (List.mem_cons_of_mem 0x2F hm)
  rw [takeEndTag, hu] at h
  cases h

theorem takeDeclaration_of_failed {f : Halt} {more : Bytes}
    (h : takeDeclaration true (0x3F :: more) = .error f) :
    Unended (0x3F :: more) .passed ∨ ∃ f', takeDeclaration false (0x3F :: more) = .error f' := by
  unfold takeDeclaration at h ⊢
  by_cases hm : 0x3E ∈ more
  · obtain ⟨u, hu⟩ := upto_of_marked (List.mem_cons_of_mem 0x3F hm)
    rw [hu] at h ⊢
    exact Or.inr ⟨_, h⟩
  by_cases hl : 1 < more.length ∧ more.getLast? = some 0x3F
  · exact Or.inl (.declaration hm hl.1 hl.2)
  rw [upto_of_unmarked (unmarked_cons (by decide) hm)]
  simp only [Bool.false_eq_true, if_false]
  rw [if_neg]
  · exact Or.inr ⟨_, rfl⟩
  · rintro ⟨hlong, hlast⟩
    rw [List.length_cons] at hlong
    apply hl
    refine ⟨by omega, ?_⟩
    cases more with
    | nil => simp at hlong
    | cons c more => rwa [List.getLast?_cons_cons] at hlast

theorem takeTag_of_failed {f : Halt} {b : UInt8} {more : Bytes}
    (isTag : b ≠ 0x2F ∧ b ≠ 0x3F ∧ b ≠ 0x21) (h : takeTag true (b :: more) = .error f) :
    Unended (b :: more) (.opens (b :: more)) := by
  apply Unended.tag isTag
  by_contra hu
  obtain ⟨t, ht⟩ := takeTag_of_marked hu
  rw [ht] at h
  cases h

/-- What cannot be taken when more may follow is no fault only where the input ends. -/
theorem take_of_failed {f : Halt} (h : Markup.take true ends offset body = .error f) :
    (∃ part, Unended body part) ∨ ∃ f', Markup.take false ends offset body = .error f' := by
  cases body with
  | nil => exact Or.inl ⟨_, .nothing⟩
  | cons b more =>
    unfold Markup.take at h ⊢
    simp only at h ⊢
    by_cases hb1 : b = 0x2F
    · subst hb1
      rw [if_pos rfl] at h
      exact Or.inl ⟨_, takeEndTag_of_failed h⟩
    rw [if_neg hb1] at h ⊢
    by_cases hb2 : b = 0x3F
    · subst hb2
      rw [if_pos rfl] at h ⊢
      exact (takeDeclaration_of_failed h).imp_left fun hu => ⟨_, hu⟩
    rw [if_neg hb2] at h ⊢
    by_cases hb3 : b = 0x21
    · rw [if_pos hb3] at h ⊢
      cases hbang : takeBang true ends (offset + 1) more with
      | ok t => rw [hbang] at h; cases h
      | error g =>
        obtain ⟨g', hg⟩ := takeBang_of_failed hbang
        rw [hg]
        exact Or.inr ⟨_, rfl⟩
    · rw [if_neg hb3] at h
      exact Or.inl ⟨_, takeTag_of_failed ⟨hb1, hb2, hb3⟩ h⟩

/-! ## What is read at the end -/

namespace Cursor

variable {c : Cursor}

theorem read_of_nothing (h : c.body = []) : (c.read none).items = c.done.toList := by
  rw [read.eq_def]
  simp only
  split
  · rfl
  · rfl
  · next hd => rw [body, hd] at h; cases h

theorem read_of_fault {failure : Option String} (hne : c.body ≠ [])
    (h : ∀ taken e, Markup.take failure.isSome (c.endsAhead.map Prod.fst) c.start c.body = .ok taken →
      effect c.openNames taken.part ≠ .ok e) :
    ∃ f position, (c.read failure).items = c.done.toList ++ [⟨.error f, position, 0⟩] := by
  rw [read_eq failure hne]
  split
  · exact ⟨_, _, halt_items _ _ _⟩
  · next taken ht =>
    split
    · exact ⟨_, _, halt_items _ _ _⟩
    · next e he => exact absurd he (h taken e ht)

/-- Behind its last complete construct a text ends with one that goes on to the end, or else with
a fault. -/
theorem read_leftover (h : c.next? = none) :
    (∃ part e position drawn, Unended c.body part ∧ effect c.openNames part = .ok e ∧
      (c.read none).items = c.done.toList ++ e.items position drawn) ∨
    ((∀ part e, Unended c.body part → effect c.openNames part ≠ .ok e) ∧
      ∃ f position, (c.read none).items = c.done.toList ++ [⟨.error f, position, 0⟩]) := by
  by_cases hne : c.body = []
  · refine Or.inl ⟨.passed, { openNames := c.openNames }, 0, 0, ?_, rfl, ?_⟩
    · rw [hne]
      exact .nothing
    · rw [read_of_nothing hne]
      exact (List.append_nil _).symm
  by_cases hu : ∃ part e, Unended c.body part ∧ effect c.openNames part = .ok e
  · obtain ⟨part, e, hu, he⟩ := hu
    obtain ⟨-, t, ht, hp, hr⟩ := hu.take hne (c.endsAhead.map Prod.fst) c.start
    refine Or.inl ⟨part, e, c.start + t.advance,
      drawnAt c.endsAhead (c.start + t.advance) t.rest, hu, he, ?_⟩
    rw [read_of_take none ht (by rw [hp]; exact he),
      read_of_nothing (by rw [body, move, hr]; rfl)]
    exact Array.toList_appendList
  · refine Or.inr ⟨fun part e hp he => hu ⟨part, e, hp, he⟩, read_of_fault hne fun t e ht he => ?_⟩
    cases htrue : Markup.take true (c.endsAhead.map Prod.fst) c.start c.body with
    | ok t' =>
      cases (take_of_complete htrue false).symm.trans ht
      rw [next?_eq_some.mpr ⟨t, e, htrue, he, rfl⟩] at h
      cases h
    | error f =>
      rcases take_of_failed htrue with ⟨part, hp⟩ | ⟨f', hf⟩
      · obtain ⟨-, t', ht', hpart, -⟩ := hp.take hne (c.endsAhead.map Prod.fst) c.start
        cases ht'.symm.trans ht
        exact hu ⟨part, e, hp, by rw [← hpart]; exact he⟩
      · cases hf.symm.trans ht

end Cursor

end MapTables.Markup
