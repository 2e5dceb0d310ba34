import Mathlib.Data.List.Infix
import Mathlib.Data.List.TakeWhile
import MapTables.Proofs.Input.Declared

/-!
# Where an encoding is found

An encoding that no mark tells is found at the first `encoding` before the first `?>` of a document
that starts with `<?xml`. Whether that is an attribute of a declaration depends on what stands
around it.
-/

namespace MapTables

/-! ## The first place of a word -/

/-- A text is in two parts around a word, which does not stand further in front. -/
structure FirstAt (word bytes before behind : Bytes) : Prop where
  whole : bytes = before ++ (word ++ behind)
  first : ¬ word <:+: before ++ word.dropLast

section Words

variable {word bytes before behind : Bytes}

theorem after?_eq_some_iff {rest : Bytes} :
    Encoding.after? word bytes = some rest ↔ bytes = word ++ rest := by
  unfold Encoding.after?
  split
  · next h =>
    obtain ⟨more, rfl⟩ := List.isPrefixOf_iff_prefix.mp h
    simp
  · next h =>
    rw [List.isPrefixOf_iff_prefix] at h
    simp only [reduceCtorEq, false_iff]
    rintro rfl
    exact h (List.prefix_append _ _)

theorem FirstAt.here (hne : word ≠ []) : FirstAt word (word ++ behind) [] behind := by
  refine ⟨rfl, fun h => ?_⟩
  have := h.length_le
  have := List.length_pos_iff.mpr hne
  simp only [List.nil_append, List.length_dropLast] at *
  omega

theorem FirstAt.cons_iff {b : UInt8} (hne : word ≠ []) :
    FirstAt word (b :: bytes) (b :: before) behind ↔
      ¬ word <+: b :: bytes ∧ FirstAt word bytes before behind := by
  have length := List.length_pos_iff.mpr hne
  have front : before ++ word.dropLast <+: before ++ (word ++ behind) :=
    (List.prefix_append_right_inj _).mpr
      ((List.dropLast_prefix word).trans (List.prefix_append _ _))
  constructor
  · rintro ⟨whole, first⟩
    have hb : bytes = before ++ (word ++ behind) := (List.cons.inj whole).2
    rw [List.cons_append, List.infix_cons_iff, not_or] at first
    refine ⟨fun hp => first.1 ?_, hb, first.2⟩
    -- The word has no place for its last octet.
    refine List.prefix_of_prefix_length_le hp ?_ (by simp; omega)
    rw [hb]
    exact (List.prefix_cons_inj b).mpr front
  · rintro ⟨hp, rfl, first⟩
    refine ⟨rfl, ?_⟩
    rw [List.cons_append, List.infix_cons_iff, not_or]
    exact ⟨fun h => hp (h.trans ((List.prefix_cons_inj b).mpr front)), first⟩

theorem splitAtWord_eq_some_iff (hne : word ≠ []) :
    Encoding.splitAtWord word bytes = some (before, behind) ↔ FirstAt word bytes before behind := by
  constructor
  · intro h
    induction bytes generalizing before with
    | nil =>
      have := splitAtWord_eq h
      simp [hne] at this
    | cons b rest ih =>
      by_cases hw : word <+: b :: rest
      · obtain ⟨more, hm⟩ := hw
        rw [← hm, splitAtWord_here hne] at h
        cases h
        rw [← hm]
        exact .here hne
      · rw [splitAtWord_skip hw] at h
        obtain ⟨⟨before', behind'⟩, hr, he⟩ := Option.map_eq_some_iff.mp h
        cases he
        exact (FirstAt.cons_iff hne).mpr ⟨hw, ih hr⟩
  · intro h
    induction before generalizing bytes with
    | nil =>
      rw [h.whole]
      exact splitAtWord_here hne behind
    | cons b before ih =>
      obtain ⟨whole, -⟩ := id h
      rw [List.cons_append] at whole
      subst whole
      obtain ⟨hw, hr⟩ := (FirstAt.cons_iff hne).mp h
      rw [splitAtWord_skip hw, ih hr]
      rfl

end Words

/-! ## The value that is found -/

namespace Encoding

/-- What stands between `<?xml` at the start and the first `?>` behind it. -/
def Opens (head inner : Bytes) : Prop :=
  ∃ rest behind, head = Bytes.ofString "<?xml" ++ rest ∧ FirstAt (Bytes.ofString "?>") rest inner behind

def opening? (head : Bytes) : Option Bytes :=
  ((after? (Bytes.ofString "<?xml") head).bind (splitAtWord (Bytes.ofString "?>"))).map Prod.fst

theorem close_ne_nil : Bytes.ofString "?>" ≠ [] := by
  rw [octets_words.2.1]
  exact List.cons_ne_nil _ _

theorem encoding_ne_nil : Bytes.ofString "encoding" ≠ [] := by
  rw [octets_words.2.2.2.2.1]
  exact List.cons_ne_nil _ _

theorem opens_iff {head inner : Bytes} : Opens head inner ↔ opening? head = some inner := by
  simp only [Opens, opening?, Option.map_eq_some_iff, Option.bind_eq_some_iff, after?_eq_some_iff,
    Prod.exists, exists_and_right, exists_eq_right, ← splitAtWord_eq_some_iff close_ne_nil]
  constructor
  · rintro ⟨rest, behind, hrest, hinner⟩
    exact ⟨behind, rest, hrest, hinner⟩
  · rintro ⟨behind, rest, hrest, hinner⟩
    exact ⟨rest, behind, hrest, hinner⟩

/-- A text starts with an `=` and a value in quotes, with blanks around the `=`. -/
def Assigns (isBlank : UInt8 → Bool) (bytes value : Bytes) : Prop :=
  ∃ before after quote more, before.all isBlank ∧ after.all isBlank ∧ (quote = 0x22 ∨ quote = 0x27) ∧
    quote ∉ value ∧ bytes = before ++ 0x3D :: (after ++ quote :: (value ++ quote :: more))

theorem dropWhile_eq_cons_iff {isBlank : UInt8 → Bool} {bytes rest : Bytes} {b : UInt8}
    (hb : isBlank b = false) : bytes.dropWhile isBlank = b :: rest ↔
      ∃ front, front.all isBlank ∧ bytes = front ++ b :: rest := by
  constructor
  · intro h
    refine ⟨bytes.takeWhile isBlank, List.all_takeWhile, ?_⟩
    rw [← h, List.takeWhile_append_dropWhile]
  · rintro ⟨front, hf, rfl⟩
    rw [List.dropWhile_append_of_pos (List.all_eq_true.mp hf),
      List.dropWhile_cons_of_neg (by simp [hb])]

theorem quoted?_eq_some_iff {bytes value : Bytes} : quoted? bytes = some value ↔
    ∃ quote more, (quote = 0x22 ∨ quote = 0x27) ∧ quote ∉ value ∧
      bytes = quote :: (value ++ quote :: more) := by
  have until_quote {q : UInt8} {front more : Bytes} (h : q ∉ front) :
      (front ++ q :: more).takeWhile (· != q) = front := by
    rw [List.takeWhile_append_of_pos fun b hb => by rw [bne_iff_ne]; rintro rfl; exact h hb,
      List.takeWhile_cons_of_neg (by simp), List.append_nil]
  constructor
  · intro h
    obtain _ | ⟨q, rest⟩ := bytes
    · cases h
    · simp only [quoted?, List.contains_eq_mem, decide_eq_true_eq, Option.ite_none_right_eq_some,
        Option.some.injEq] at h
      obtain ⟨hq, hm, hv⟩ := h
      obtain ⟨front, more, rfl, hf⟩ := List.eq_append_cons_of_mem hm
      rw [until_quote hf] at hv
      exact ⟨q, more, hq, hv ▸ hf, by rw [hv]⟩
  · rintro ⟨quote, more, hq, hv, rfl⟩
    rw [quoted?, if_pos hq, if_pos (by simp), until_quote hv]

theorem assigns_iff {bytes value : Bytes} : Assigns isLabelSpace bytes value ↔
    ((after? (Bytes.ofString "=") (bytes.dropWhile isLabelSpace)).bind fun rest =>
      quoted? (rest.dropWhile isLabelSpace)) = some value := by
  simp only [Option.bind_eq_some_iff, after?_eq_some_iff, octets_words.1, List.singleton_append,
    dropWhile_eq_cons_iff (show isLabelSpace 0x3D = false from rfl), quoted?_eq_some_iff]
  constructor
  · rintro ⟨before, after, quote, more, hb, ha, hq, hv, rfl⟩
    refine ⟨_, ⟨before, hb, rfl⟩, quote, more, hq, hv, ?_⟩
    exact (dropWhile_eq_cons_iff (not_labelSpace_of_quote hq)).mpr ⟨after, ha, rfl⟩
  · rintro ⟨rest, ⟨before, hb, rfl⟩, quote, more, hq, hv, hd⟩
    obtain ⟨after, ha, rfl⟩ := (dropWhile_eq_cons_iff (not_labelSpace_of_quote hq)).mp hd
    exact ⟨before, after, quote, more, hb, ha, hq, hv, rfl⟩

theorem declaredLabel?_eq_some_iff {head label : Bytes} : declaredLabel? head = some label ↔
    ∃ inner before behind, Opens head inner ∧
      FirstAt (Bytes.ofString "encoding") inner before behind ∧
      Assigns isLabelSpace behind label := by
  simp only [assigns_iff, opens_iff, opening?, ← splitAtWord_eq_some_iff encoding_ne_nil]
  unfold declaredLabel?
  constructor
  · intro h
    obtain ⟨rest, hrest, h⟩ := Option.bind_eq_some_iff.mp h
    obtain ⟨⟨inner, behind⟩, hinner, h⟩ := Option.bind_eq_some_iff.mp h
    obtain ⟨⟨before, tail⟩, hname, h⟩ := Option.bind_eq_some_iff.mp h
    exact ⟨inner, before, tail, by rw [hrest, Option.bind_some, hinner]; rfl, hname, h⟩
  · rintro ⟨inner, before, tail, hopen, hname, h⟩
    obtain ⟨⟨inner', behind⟩, hinner, rfl⟩ := Option.map_eq_some_iff.mp hopen
    obtain ⟨rest, hrest, hinner⟩ := Option.bind_eq_some_iff.mp hinner
    simp only [hrest, hinner, hname, bind, Option.bind_some]
    exact h

/-! ## The encoding of a declaration -/

def Finds (head : Bytes) (e : Encoding) : Prop :=
  ∃ inner before behind label, Opens head inner ∧
    FirstAt (Bytes.ofString "encoding") inner before behind ∧
    Assigns isLabelSpace behind label ∧ e.GoesBy (trimLabel label)

/-- The quote that is still open behind a text. -/
def openQuote (bytes : Bytes) : Option UInt8 :=
  bytes.foldl (fun opened b => opened.elim (if b = 0x22 ∨ b = 0x27 then some b else none)
    fun quote => if b = quote then none else some quote) none

/-- An attribute may follow: there is white space in front, and no quote is open. -/
def mayFollow (before : Bytes) : Bool :=
  before.getLast?.any Tag.isSpace && (openQuote before).isNone

/-- A document starts with a declaration, in which an attribute with the name `encoding` has a label
of this encoding. -/
def Declares (head : Bytes) (e : Encoding) : Prop :=
  ∃ inner before behind label, Opens head inner ∧ inner.head?.any Tag.isSpace ∧
    inner = before ++ (Bytes.ofString "encoding" ++ behind) ∧ mayFollow before ∧
    Assigns Tag.isSpace behind label ∧ e.GoesBy (trimLabel label)

/-- If there is an `encoding` in front of the first `?>`, the first one is the name of an attribute
in a declaration, without a form feed between the name and the value. -/
def StandsAlone (head : Bytes) : Prop :=
  ∀ inner before behind, Opens head inner → FirstAt (Bytes.ofString "encoding") inner before behind →
    inner.head?.any Tag.isSpace ∧ mayFollow before ∧
    0x0C ∉ behind.takeWhile fun b => b != 0x22 && b != 0x27

theorem Assigns.of_labelSpace {bytes value : Bytes} (h : Assigns isLabelSpace bytes value)
    (unfed : 0x0C ∉ bytes.takeWhile fun b => b != 0x22 && b != 0x27) :
    Assigns Tag.isSpace bytes value := by
  obtain ⟨before, after, quote, more, hb, ha, hq, hv, rfl⟩ := h
  have unquoted {b : UInt8} (hb : isLabelSpace b) : (b != 0x22 && b != 0x27) = true := by
    simp only [Bool.and_eq_true, bne_iff_ne]
    constructor <;> (rintro rfl; cases hb)
  rw [List.takeWhile_append_of_pos fun b h => unquoted (List.all_eq_true.mp hb b h),
    List.takeWhile_cons_of_pos (by decide),
    List.takeWhile_append_of_pos fun b h => unquoted (List.all_eq_true.mp ha b h)] at unfed
  have blank {bytes : Bytes} (h : bytes.all isLabelSpace) (hf : 0x0C ∉ bytes) :
      bytes.all Tag.isSpace := by
    refine List.all_eq_true.mpr fun b hb => ?_
    have hl := List.all_eq_true.mp h b hb
    unfold isLabelSpace at hl
    unfold Tag.isSpace
    simp only [Bool.or_eq_true, beq_iff_eq] at hl ⊢
    rcases hl with (((rfl | rfl) | rfl) | rfl) | rfl
    · exact .inl (.inl (.inr rfl))
    · exact .inl (.inr rfl)
    · exact absurd hb hf
    · exact .inr rfl
    · exact .inl (.inl (.inl rfl))
  refine ⟨before, after, quote, more, blank hb fun h => unfed ?_, blank ha fun h => unfed ?_, hq, hv,
    rfl⟩ <;> simp [h]

theorem StandsAlone.of_split {head inner before behind : Bytes} (ho : opening? head = some inner)
    (hs : splitAtWord (Bytes.ofString "encoding") inner = some (before, behind))
    (h : inner.head?.any Tag.isSpace ∧ mayFollow before ∧
      0x0C ∉ behind.takeWhile fun b => b != 0x22 && b != 0x27) : StandsAlone head := by
  intro inner' before' behind' ho' hf
  cases ho.symm.trans (opens_iff.mp ho')
  cases hs.symm.trans ((splitAtWord_eq_some_iff encoding_ne_nil).mpr hf)
  exact h

theorem not_declares {head inner : Bytes} {e : Encoding} (ho : opening? head = some inner)
    (h : inner.head?.any Tag.isSpace → ∀ before ∈ inner.inits, mayFollow before →
      ¬ Bytes.ofString "encoding" <+: inner.drop before.length) : ¬ Declares head e := by
  rintro ⟨inner', before, behind, label, ho', spaced, whole, follows, -⟩
  cases ho.symm.trans (opens_iff.mp ho')
  subst whole
  refine h spaced before ((List.mem_inits _ _).mpr (List.prefix_append _ _)) follows ?_
  rw [List.drop_left]
  exact List.prefix_append _ _

theorem finds_iff {head : Bytes} {e : Encoding} :
    Finds head e ↔ ∃ label, declaredLabel? head = some label ∧ ofLabel? label = some e := by
  simp only [declaredLabel?_eq_some_iff, ofLabel?_eq_some_iff, Finds]
  constructor
  · rintro ⟨inner, before, behind, label, ho, hf, ha, he⟩
    exact ⟨label, ⟨inner, before, behind, ho, hf, ha⟩, he⟩
  · rintro ⟨label, ⟨inner, before, behind, ho, hf, ha⟩, he⟩
    exact ⟨inner, before, behind, label, ho, hf, ha, he⟩

theorem declared?_eq_some_iff {head : Bytes} {e : Encoding} (other : e ≠ .utf8) :
    declared? head = some e ↔ e.isUtf16 = false ∧ Finds head e := by
  rw [finds_iff]
  unfold declared?
  cases declaredLabel? head with
  | none => simp
  | some label =>
    cases hl : ofLabel? label with
    | none => simp [hl]
    | some e' =>
      cases hu : e'.isUtf16
      · simp only [bind, Option.bind_some, hl, hu, pure, Option.some.injEq, exists_eq_left',
          Bool.false_eq_true, if_false]
        constructor
        · rintro rfl
          exact ⟨hu, rfl⟩
        · exact And.right
      · simp only [bind, Option.bind_some, hl, hu, pure, Option.some.injEq, exists_eq_left', if_true]
        constructor
        · intro he
          exact absurd he.symm other
        · rintro ⟨he, rfl⟩
          rw [hu] at he
          cases he

theorem sniff_eq_iff {head : Bytes} {e : Encoding} (unmarked : ofMark? head = none)
    (little : ¬ [0x3C, 0x00] <+: head) (big : ¬ [0x00, 0x3C] <+: head) (other : e ≠ .utf8) :
    sniff head = e ↔ e.isUtf16 = false ∧ Finds head e := by
  have plain : sniff head = (declared? head).getD .utf8 := by
    unfold sniff
    rw [unmarked]
    simp only
    split
    · simp at little
    · simp at big
    · rfl
  rw [plain, ← declared?_eq_some_iff other]
  cases declared? head with
  | none => simp [other.symm]
  | some e' => simp

end Encoding

/-- An encoding other than UTF-8 that neither a mark nor a pattern tells is the one whose label
follows the first `encoding` of an opening. If that stands alone, the document starts with a
declaration that has the label in an attribute. -/
theorem encoding_found_is_declared {head : Bytes} {e : Encoding}
    (unmarked : Encoding.ofMark? head = none) (little : ¬ [0x3C, 0x00] <+: head)
    (big : ¬ [0x00, 0x3C] <+: head) (other : e ≠ .utf8) :
    (Encoding.sniff head = e ↔ e.isUtf16 = false ∧ Encoding.Finds head e) ∧
    (Encoding.sniff head = e → Encoding.StandsAlone head → Encoding.Declares head e) := by
  have found := Encoding.sniff_eq_iff unmarked little big other
  refine ⟨found, fun hs alone => ?_⟩
  obtain ⟨-, inner, before, behind, label, ho, hf, ha, he⟩ := found.mp hs
  obtain ⟨spaced, follows, unfed⟩ := alone inner before behind ho hf
  exact ⟨inner, before, behind, label, ho, spaced, hf.whole, follows, ha.of_labelSpace unfed, he⟩

/-- A question mark and `utf-8` stand in a value in front, and spaces around the label. -/
theorem encoding_found_is_declared_of_crowded :
    let head := Bytes.ofString "<?xml\tversion=\"1'?-utf-8\"\n\tencoding\r\n=' Latin2 '?><osm/>"
    Encoding.ofMark? head = none ∧ ¬ [0x3C, 0x00] <+: head ∧ ¬ [0x00, 0x3C] <+: head ∧
      Encoding.iso8859_2 ≠ .utf8 ∧ Encoding.sniff head = .iso8859_2 ∧ Encoding.StandsAlone head ∧
      Encoding.Declares head .iso8859_2 := by
  intro head
  have unmarked : Encoding.ofMark? head = none := by decide +kernel
  have little : ¬ [0x3C, 0x00] <+: head := by decide +kernel
  have big : ¬ [0x00, 0x3C] <+: head := by decide +kernel
  have hs : Encoding.sniff head = .iso8859_2 := by decide +kernel
  have opened : Encoding.opening? head =
      some (Bytes.ofString "\tversion=\"1'?-utf-8\"\n\tencoding\r\n=' Latin2 '") := by
    decide +kernel
  have split : Encoding.splitAtWord (Bytes.ofString "encoding")
      (Bytes.ofString "\tversion=\"1'?-utf-8\"\n\tencoding\r\n=' Latin2 '") =
      some (Bytes.ofString "\tversion=\"1'?-utf-8\"\n\t", Bytes.ofString "\r\n=' Latin2 '") := by
    decide +kernel
  have alone : Encoding.StandsAlone head := .of_split opened split (by decide +kernel)
  exact ⟨unmarked, little, big, by decide, hs, alone,
    (encoding_found_is_declared unmarked little big (by decide)).2 hs alone⟩

/-- An encoding is also found in another instruction, in an attribute with a longer name and in the
value of another attribute. -/
theorem encoding_found_outside_declaration :
    let other := Bytes.ofString "<?xml-stylesheet href='a' encoding='latin1'?>"
    let longer := Bytes.ofString "<?xml version='1.0' x-encoding='latin1'?>"
    let within := Bytes.ofString "<?xml version=\"1.0 encoding='latin1'\"?>"
    (∀ head ∈ [other, longer, within], Encoding.ofMark? head = none ∧ ¬ [0x3C, 0x00] <+: head ∧
      ¬ [0x00, 0x3C] <+: head ∧ Encoding.sniff head = .windows1252) ∧
    ∀ head ∈ [other, longer, within], ¬ Encoding.Declares head .windows1252 := by
  intro other longer within
  refine ⟨by decide +kernel, ?_⟩
  simp only [List.forall_mem_cons, List.not_mem_nil, false_imp_iff, implies_true, and_true]
  have opened : Encoding.opening? other =
        some (Bytes.ofString "-stylesheet href='a' encoding='latin1'") ∧
      Encoding.opening? longer = some (Bytes.ofString " version='1.0' x-encoding='latin1'") ∧
      Encoding.opening? within = some (Bytes.ofString " version=\"1.0 encoding='latin1'\"") := by
    decide +kernel
  refine ⟨Encoding.not_declares opened.1 ?_, Encoding.not_declares opened.2.1 ?_,
    Encoding.not_declares opened.2.2 ?_⟩ <;>
  decide +kernel

end MapTables
