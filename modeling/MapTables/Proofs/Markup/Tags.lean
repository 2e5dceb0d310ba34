import MapTables.Proofs.Markup.Attributes
import MapTables.Proofs.Markup.Reading

/-!
# Written tags

A written tag is taken up to its `>`, and its name and attributes are read as they were written.
-/

namespace MapTables

namespace Markup

variable {b : UInt8} {s v w rest : Bytes} {name : String} {attributes : Attributes}
  {what : Option (Element × Attributes)} {names ends : List Bytes}

/-! ## Up to the end of a tag -/

theorem tagLength_quoted {q : UInt8} {n : Nat} (hq : q ∉ v) :
    tagLength (some q) n (v ++ q :: rest) = tagLength none (n + v.length + 1) rest := by
  induction v generalizing n with
  | nil => simp [tagLength]
  | cons b v ih =>
    rw [List.mem_cons, not_or] at hq
    rw [List.cons_append, tagLength, if_neg (Ne.symm hq.1), ih hq.2, List.length_cons]
    congr 1
    omega

theorem tagLength_shut {n : Nat} (h : Shut w) :
    tagLength none n (w ++ rest) = tagLength none (n + w.length) rest := by
  induction h generalizing n with
  | nil => rfl
  | cons inner _ ih =>
    rw [List.cons_append, tagLength, if_neg inner.1, if_neg inner.2, ih, List.length_cons]
    congr 1
    omega
  | @quoted q value w quote closed _ ih =>
    have hq : q ≠ 0x3E := by rcases quote with rfl | rfl <;> decide
    rw [List.cons_append, tagLength, if_neg hq, if_pos quote, List.append_assoc, List.cons_append,
      tagLength_quoted closed, ih, List.length_cons, List.length_append, List.length_cons]
    congr 1
    omega

theorem takeTag_of_shut (fails : Bool) (h : Shut w) (rest : Bytes) :
    ∃ hl, takeTag fails (w ++ 0x3E :: rest) = .ok ⟨.opens w, w.length + 1, rest, hl⟩ := by
  refine takeTag_of_length fails ?_
  rw [tagLength_shut h, tagLength, if_pos rfl, Nat.zero_add]

/-! ## Constructs -/

/-- The octets are a construct, whatever follows them. -/
def IsPart (octets : Bytes) (part : Part) : Prop :=
  ∃ body, octets = 0x3C :: body ∧ ∀ fails ends offset rest, ∃ taken : Taken (body ++ rest),
    take fails ends offset (body ++ rest) = .ok taken ∧ taken.part = part ∧ taken.rest = rest

theorem isPart_tag (hn : IsTagName name) (hw : Shut w) :
    IsPart (tag name w) (.opens (Bytes.ofString name ++ w)) := by
  refine ⟨_, rfl, fun fails ends offset rest => ?_⟩
  obtain ⟨c, cs, hc⟩ := List.exists_cons_of_ne_nil (ofString_ne_nil hn.1)
  have ne {b : UInt8} (hb : b ∈ marks) : c ≠ b := by
    rintro rfl
    exact hn.notMem hb (hc ▸ List.mem_cons_self)
  have hshut : Shut (c :: (cs ++ w)) := by
    have := hn.shut.append hw
    rwa [hc] at this
  obtain ⟨hl, htag⟩ := takeTag_of_shut fails hshut rest
  have htake : take fails ends offset (c :: (cs ++ w ++ 0x3E :: rest)) =
      .ok ⟨.opens (c :: (cs ++ w)), (c :: (cs ++ w)).length + 1, rest, hl⟩ := by
    rw [take, if_neg (ne (by decide)), if_neg (ne (by decide)), if_neg (ne (by decide))]
    exact htag
  have hbody : c :: (cs ++ w ++ 0x3E :: rest) = Bytes.ofString name ++ (w ++ [0x3E]) ++ rest := by
    rw [hc]
    simp
  obtain ⟨taken, ht, hp, -, hr⟩ := Cursor.take_congr hbody htake
  exact ⟨taken, ht, by rw [hp, hc]; rfl, hr⟩

theorem isContent_of_notMem (h : 0x3E ∉ v) : ∀ b ∈ v, isContent b = true := by
  intro b hb
  rw [isContent, bne_iff_ne]
  rintro rfl
  exact h hb

theorem isPart_endTag (hn : IsTagName name) (hs : IsBlank s) :
    IsPart (endTag name s) (.closes (0x2F :: (Bytes.ofString name ++ s))) := by
  refine ⟨_, rfl, fun fails ends offset rest => ?_⟩
  have hin : 0x3E ∉ 0x2F :: (Bytes.ofString name ++ s) := by
    rw [List.mem_cons, List.mem_append]
    rintro (hb | hb | hb)
    · exact absurd hb (by decide)
    · exact hn.notMem (by decide) hb
    · exact absurd (hs _ hb) (by decide)
  obtain ⟨hl, hupto⟩ := upto_append fails (isContent_of_notMem hin) rest
  have htake : take fails ends offset (0x2F :: (Bytes.ofString name ++ s ++ 0x3E :: rest)) =
      (upto fails (0x2F :: (Bytes.ofString name ++ s) ++ 0x3E :: rest)).map fun u =>
        ⟨.closes u.content, u.advance, u.rest, u.notLonger⟩ := by
    rw [take, if_pos rfl]
    rfl
  rw [hupto] at htake
  have hbody : 0x2F :: (Bytes.ofString name ++ s ++ 0x3E :: rest) =
      0x2F :: (Bytes.ofString name ++ (s ++ [0x3E])) ++ rest := by simp
  obtain ⟨taken, ht, hp, -, hr⟩ := Cursor.take_congr hbody htake
  exact ⟨taken, ht, hp, hr⟩

theorem isPart_declaration (inside : 0x3E ∉ v) (hv : v ≠ []) :
    IsPart (0x3C :: 0x3F :: (v ++ [0x3F, 0x3E])) .passed := by
  refine ⟨_, rfl, fun fails ends offset rest => ?_⟩
  have hin : 0x3E ∉ 0x3F :: (v ++ [0x3F]) := by simp [inside]
  have hfinished : 2 < (0x3F :: (v ++ [0x3F])).length ∧
      (0x3F :: (v ++ [0x3F])).getLast? = some 0x3F := by
    have : 0 < v.length := List.length_pos_iff.mpr hv
    refine ⟨?_, List.getLast?_concat (l := 0x3F :: v)⟩
    simp only [List.length_cons, List.length_append, List.length_nil]
    omega
  obtain ⟨hl, hupto⟩ := upto_append fails (isContent_of_notMem hin) rest
  have hdeclaration : takeDeclaration fails (0x3F :: (v ++ [0x3F]) ++ 0x3E :: rest) =
      .ok ⟨.passed, (0x3F :: (v ++ [0x3F])).length + 1, rest, hl⟩ := by
    unfold takeDeclaration
    rw [hupto]
    simp only [hfinished, and_self, if_true]
  have htake : take fails ends offset (0x3F :: (v ++ [0x3F] ++ 0x3E :: rest)) =
      takeDeclaration fails (0x3F :: (v ++ [0x3F] ++ 0x3E :: rest)) := by
    rw [take, if_neg (by decide), if_pos rfl]
  replace htake := htake.trans hdeclaration
  have hbody : 0x3F :: (v ++ [0x3F] ++ 0x3E :: rest) =
      0x3F :: (v ++ [0x3F, 0x3E]) ++ rest := by simp
  obtain ⟨taken, ht, hp, -, hr⟩ := Cursor.take_congr hbody htake
  exact ⟨taken, ht, hp, hr⟩

theorem markedLength?_plain (mark : UInt8) (least n : Nat) (a b : UInt8) (h : 0x3E ∉ v) :
    ∃ a' b', ∀ rest, markedLength? mark least n a b (v ++ rest) =
      markedLength? mark least (n + v.length) a' b' rest := by
  induction v generalizing n a b with
  | nil => exact ⟨a, b, fun _ => rfl⟩
  | cons c v ih =>
    rw [List.mem_cons, not_or] at h
    obtain ⟨a', b', hv⟩ := ih (n + 1) b c h.2
    refine ⟨a', b', fun rest => ?_⟩
    rw [List.cons_append, markedLength?, if_neg fun hc => h.1 hc.1.symm, hv, List.length_cons,
      Nat.add_right_comm, Nat.add_assoc]

theorem isPart_comment (plain : 0x3E ∉ v) : IsPart (comment v) .passed := by
  refine ⟨_, rfl, fun fails ends offset rest => ?_⟩
  -- Two dashes open the comment, two more stand in front of its `>`.
  generalize hinner : 0x2D :: (v ++ [0x2D, 0x2D]) = inner
  have hlength : markedLength? 0x2D 4 0 0 0 (0x2D :: (inner ++ 0x3E :: rest)) =
      some (inner.length + 1) := by
    obtain ⟨a, b, hv⟩ := markedLength?_plain 0x2D 4 2 0x2D 0x2D plain
    subst hinner
    simp [markedLength?, hv]
    omega
  have hfault : bangFault? .comment ((0x2D :: (inner ++ 0x3E :: rest)).take (inner.length + 1)) =
      none := by
    have hdashes : Bytes.ofString "--" = [0x2D, 0x2D] := by decide +kernel
    subst hinner
    simp [bangFault?, startsWith, hdashes, Element.lowerOctet]
  have htake : ∃ hl, take fails ends offset (0x21 :: 0x2D :: (inner ++ 0x3E :: rest)) =
      .ok ⟨.passed, inner.length + 3, rest, hl⟩ := by
    rw [take, if_neg (by decide), if_neg (by decide), if_pos rfl]
    unfold takeBang
    have hkind : bangKind? 0x2D = some .comment := rfl
    simp only [hkind, bangLength?, hlength, hfault]
    refine ⟨by simp only [List.length_append, List.length_cons]; omega, ?_⟩
    simp [Except.map]
  obtain ⟨hl, htake⟩ := htake
  have hbody : 0x21 :: 0x2D :: (inner ++ 0x3E :: rest) =
      [0x21, 0x2D, 0x2D] ++ (v ++ [0x2D, 0x2D, 0x3E]) ++ rest := by simp [← hinner]
  obtain ⟨taken, ht, hp, -, hr⟩ := Cursor.take_congr hbody htake
  exact ⟨taken, ht, hp, hr⟩

/-! ## Events -/

def opening : Option (Element × Attributes) → List Event
  | some (e, a) => [.start e a]
  | none => []

def closing : Option (Element × Attributes) → List Event
  | some (e, _) => [.close e]
  | none => []

theorem Heading.isName (h : Heading what name w) : IsTagName name := by
  cases h with
  | element isName => exact isName
  | other isName => exact isName

theorem Heading.layout (h : Heading what name w) : Layout w := by
  cases h with
  | element _ _ _ written => exact written.layout
  | other _ _ layout => exact layout

theorem Heading.element? (h : Heading what name w) :
    Element.ofName? (Tag.localName (Bytes.ofString name)) = what.map Prod.fst := by
  cases h with
  | element _ denotes => exact ofName?_localName.mpr denotes
  | other _ other =>
    rw [Option.map_none, Option.eq_none_iff_forall_ne_some]
    exact fun e he => other e (ofName?_localName.mp he)

/-- What the reader finds in a tag: its name, what stands behind that, and whether it is empty. -/
theorem Layout.reads (hw : Layout w) (hn : IsTagName name) (empty : Bool) :
    let content := Bytes.ofString name ++ (w ++ if empty then [0x2F] else [])
    tagInner content = Bytes.ofString name ++ w ∧ tagName content = Bytes.ofString name ∧
      (content.getLast? == some 0x2F) = empty := by
  intro content
  have hlast : (content.getLast? == some 0x2F) = empty := by
    cases empty with
    | true => simp [content]
    | false =>
      rw [beq_eq_false_iff_ne]
      change (Bytes.ofString name ++ (w ++ [])).getLast? ≠ some 0x2F
      rw [List.append_nil, List.getLast?_append]
      cases hl : w.getLast? with
      | none => exact fun h => hn.notMem (by decide) (List.mem_of_getLast? h)
      | some b =>
        rw [Option.some_or, ← hl]
        exact hw.last
  have hinner : tagInner content = Bytes.ofString name ++ w := by
    unfold tagInner
    rw [hlast]
    cases empty with
    | true =>
      change (Bytes.ofString name ++ (w ++ [0x2F])).dropLast = _
      rw [← List.append_assoc, List.dropLast_concat]
    | false => simp [content]
  refine ⟨hinner, ?_, hlast⟩
  -- The name ends where what stands behind it starts.
  have hname : ∀ b ∈ Bytes.ofString name, (!Tag.isSpace b) = true := fun b hb => by
    rw [hn.not_isSpace b hb]
    rfl
  unfold tagName
  rw [hinner]
  cases w with
  | nil =>
    rw [List.append_nil]
    exact List.takeWhile_eq_self_iff.mpr hname
  | cons b w =>
    have hb : Tag.isSpace b = true := (hw.apart b rfl).isSpace b List.mem_cons_self
    exact (span_append hname (by rw [hb]; rfl) w).1

theorem Heading.elementEvents (h : Heading what name w) (empty : Bool) :
    elementEvents (Bytes.ofString name) (Bytes.ofString name ++ w) empty =
      .ok (opening what ++ if empty then closing what else []) := by
  have helement := h.element?
  unfold Markup.elementEvents
  cases h with
  | element _ _ distinct written =>
    rw [helement]
    simp only [Option.map_some, written.attributes distinct]
    cases empty <;> simp [Except.map, opening, closing]
  | other =>
    rw [helement]
    cases empty <;> rfl

theorem Heading.openTag (h : Heading what name w) : openTag names (Bytes.ofString name ++ w) =
    { openNames := Bytes.ofString name :: names, events := opening what } := by
  obtain ⟨hinner, hname, hlast⟩ := h.layout.reads h.isName false
  simp only [Bool.false_eq_true, if_false, List.append_nil] at hinner hname hlast
  rw [openTag_eq, hinner, hname, hlast]
  simp [h.elementEvents]

theorem Heading.emptyTag (h : Heading what name w) :
    Markup.openTag names (Bytes.ofString name ++ (w ++ [0x2F])) =
      { openNames := names, events := opening what ++ closing what } := by
  obtain ⟨hinner, hname, hlast⟩ := h.layout.reads h.isName true
  simp only [if_true] at hinner hname hlast
  rw [openTag_eq, hinner, hname, hlast]
  simp [h.elementEvents]

theorem IsTagName.trimEnd (hn : IsTagName name) (hs : IsBlank s) :
    trimEnd (Bytes.ofString name ++ s) = Bytes.ofString name := by
  have hne : (Bytes.ofString name).reverse ≠ [] := by
    simpa using ofString_ne_nil hn.1
  obtain ⟨c, cs, hc⟩ := List.exists_cons_of_ne_nil hne
  have hspace : Tag.isSpace c = false := by
    refine hn.not_isSpace c ?_
    rw [← List.mem_reverse, hc]
    exact List.mem_cons_self
  have hblank : ∀ b ∈ s.reverse, Tag.isSpace b = true := fun b hb =>
    hs.isSpace b (List.mem_reverse.mp hb)
  unfold Markup.trimEnd
  rw [List.reverse_append, hc, (span_append hblank hspace cs).2, ← hc]
  simp

/-- The end tag closes the element, whatever spaces follow its name. -/
theorem Heading.closeTag (h : Heading what name w) (hs : IsBlank s) :
    closeTag (Bytes.ofString name :: names) (0x2F :: (Bytes.ofString name ++ s)) =
      .ok { openNames := names, events := closing what } := by
  unfold Markup.closeTag
  simp only [List.tail_cons, h.isName.trimEnd hs, if_true, h.element?]
  cases what <;> rfl

end Markup
end MapTables
