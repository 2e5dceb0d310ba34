import MapTables.Markup.Attribute
import MapTables.Proofs.Input.Encoding

/-!
# Declarations of XML

What may stand in front of a document, octet by octet, and the label of an encoding that is found
in it.
-/

namespace MapTables

/-! ## What a declaration is -/

namespace XmlDeclaration

def isDigit (b : UInt8) : Bool := 0x30 ≤ b && b ≤ 0x39

def isLetter (b : UInt8) : Bool := 0x41 ≤ b && b ≤ 0x5A || 0x61 ≤ b && b ≤ 0x7A

def isVersion : Bytes → Bool
  | 0x31 :: 0x2E :: d :: ds => (d :: ds).all isDigit
  | _ => false

def isNameOctet (b : UInt8) : Bool :=
  isLetter b || isDigit b || b == 0x2E || b == 0x5F || b == 0x2D

def isEncodingName : Bytes → Bool
  | b :: rest => isLetter b && rest.all isNameOctet
  | [] => false

def isYesOrNo (value : Bytes) : Bool :=
  value == Bytes.ofString "yes" || value == Bytes.ofString "no"

end XmlDeclaration

/-- A name with its quoted value in a declaration, and the space around its parts. -/
structure PseudoAttribute (name : String) (isValue : Bytes → Bool) where
  space : Bytes := [0x20]
  before : Bytes := []
  after : Bytes := []
  quote : UInt8 := 0x22
  value : Bytes
  spaced : space ≠ [] := by decide
  blank : (space ++ before ++ after).all Tag.isSpace := by decide
  quoted : quote = 0x22 ∨ quote = 0x27 := by decide
  valued : isValue value := by decide

structure XmlDeclaration where
  version : PseudoAttribute "version" XmlDeclaration.isVersion
  encoding : Option (PseudoAttribute "encoding" XmlDeclaration.isEncodingName) := none
  standalone : Option (PseudoAttribute "standalone" XmlDeclaration.isYesOrNo) := none
  space : Bytes := []
  blank : space.all Tag.isSpace := by decide

namespace PseudoAttribute

variable {name : String} {isValue : Bytes → Bool} (p : PseudoAttribute name isValue)

/-- What stands behind the `=`. -/
def assigned : Bytes := p.after ++ p.quote :: (p.value ++ [p.quote])

/-- What stands behind the name. -/
def tail : Bytes := p.before ++ 0x3D :: p.assigned

def octets : Bytes := p.space ++ (Bytes.ofString name ++ p.tail)

end PseudoAttribute

namespace XmlDeclaration

variable (d : XmlDeclaration)

/-- What stands between the encoding and `?>`. -/
def tail : Bytes := d.standalone.elim [] PseudoAttribute.octets ++ d.space

/-- What stands between `<?xml` and `?>`. -/
def inner : Bytes := d.version.octets ++ (d.encoding.elim [] PseudoAttribute.octets ++ d.tail)

def octets : Bytes := Bytes.ofString "<?xml" ++ (d.inner ++ Bytes.ofString "?>")

end XmlDeclaration

/-! ## The octets of a declaration -/

theorem octets_words :
    Bytes.ofString "=" = [0x3D] ∧ Bytes.ofString "?>" = [0x3F, 0x3E] ∧
    Bytes.ofString "<?xml" = [0x3C, 0x3F, 0x78, 0x6D, 0x6C] ∧
    Bytes.ofString "version" = [0x76, 0x65, 0x72, 0x73, 0x69, 0x6F, 0x6E] ∧
    Bytes.ofString "encoding" = [0x65, 0x6E, 0x63, 0x6F, 0x64, 0x69, 0x6E, 0x67] ∧
    Bytes.ofString "standalone" = [0x73, 0x74, 0x61, 0x6E, 0x64, 0x61, 0x6C, 0x6F, 0x6E, 0x65] ∧
    Bytes.ofString "yes" = [0x79, 0x65, 0x73] ∧ Bytes.ofString "no" = [0x6E, 0x6F] := by
  decide +kernel

theorem not_labelSpace_of_quote {q : UInt8} (h : q = 0x22 ∨ q = 0x27) :
    Encoding.isLabelSpace q = false := by
  rcases h with rfl | rfl <;> rfl

theorem labelSpace_of_isSpace {b : UInt8} (h : Tag.isSpace b) : Encoding.isLabelSpace b := by
  unfold Tag.isSpace at h
  unfold Encoding.isLabelSpace
  simp only [Bool.or_eq_true] at h ⊢
  rcases h with ((h | h) | h) | h <;> simp [h]

namespace PseudoAttribute

variable {name : String} {isValue : Bytes → Bool} {p : PseudoAttribute name isValue}
  {P : UInt8 → Prop}

theorem of_mem_tail (space : ∀ b, Tag.isSpace b → P b) (equals : P 0x3D) (double : P 0x22)
    (single : P 0x27) (value : ∀ b ∈ p.value, P b) : ∀ b ∈ p.tail, P b := by
  have quote : P p.quote := by
    rcases p.quoted with h | h <;> rw [h]
    · exact double
    · exact single
  intro b hb
  have blank := List.all_eq_true.mp p.blank b
  simp only [List.mem_append] at blank
  simp only [tail, assigned, List.mem_append, List.mem_cons, List.not_mem_nil, or_false] at hb
  rcases hb with hb | rfl | hb | rfl | hb | rfl
  · exact space b (blank (Or.inl (Or.inr hb)))
  · exact equals
  · exact space b (blank (Or.inr hb))
  · exact quote
  · exact value b hb
  · exact quote

theorem of_mem_space (space : ∀ b, Tag.isSpace b → P b) : ∀ b ∈ p.space, P b :=
  fun b hb => space b
    (List.all_eq_true.mp p.blank b (List.mem_append_left _ (List.mem_append_left _ hb)))

theorem of_mem_octets (space : ∀ b, Tag.isSpace b → P b) (equals : P 0x3D) (double : P 0x22)
    (single : P 0x27) (named : ∀ b ∈ Bytes.ofString name, P b) (value : ∀ b ∈ p.value, P b) :
    ∀ b ∈ p.octets, P b := by
  intro b hb
  simp only [octets, List.mem_append] at hb
  rcases hb with hb | hb | hb
  · exact of_mem_space space b hb
  · exact named b hb
  · exact of_mem_tail space equals double single value b hb

theorem quoted?_assigned (hv : p.quote ∉ p.value) (more : Bytes) :
    (Encoding.after? (Bytes.ofString "=")
      ((p.tail ++ more).dropWhile Encoding.isLabelSpace)).bind (fun rest =>
        Encoding.quoted? (rest.dropWhile Encoding.isLabelSpace)) = some p.value := by
  have blank (bs : Bytes) (h : bs ⊆ p.space ++ p.before ++ p.after) :
      ∀ b ∈ bs, Encoding.isLabelSpace b :=
    fun b hb => labelSpace_of_isSpace (List.all_eq_true.mp p.blank b (h hb))
  have before := blank p.before (by simp)
  have after := blank p.after (by simp)
  rw [tail, List.append_assoc, List.dropWhile_append_of_pos before, List.cons_append,
    List.dropWhile_cons_of_neg (by decide)]
  rw [octets_words.1]
  change Encoding.quoted? ((p.assigned ++ more).dropWhile Encoding.isLabelSpace) = _
  rw [assigned, List.append_assoc, List.dropWhile_append_of_pos after, List.cons_append,
    List.dropWhile_cons_of_neg (by simp [not_labelSpace_of_quote p.quoted]), List.append_assoc]
  have closed : (p.value ++ ([p.quote] ++ more)).contains p.quote := by simp
  have opened : (p.value ++ ([p.quote] ++ more)).takeWhile (· != p.quote) = p.value := by
    rw [List.takeWhile_append_of_pos fun b hb => ?_]
    · simp
    · rw [bne_iff_ne]
      rintro rfl
      exact hv hb
  rw [Encoding.quoted?, if_pos p.quoted, if_pos closed, opened]

end PseudoAttribute

/-! ## The label -/

section Words

variable {word front : Bytes} {b : UInt8}

theorem splitAtWord_skip (h : ¬ word <+: b :: front) : Encoding.splitAtWord word (b :: front) =
    (Encoding.splitAtWord word front).map fun (before, behind) => (b :: before, behind) := by
  rw [Encoding.splitAtWord, if_neg]
  rwa [List.isPrefixOf_iff_prefix]

theorem splitAtWord_passing (h : ∀ b ∈ front, some b ≠ word.head?) (hne : word ≠ []) (rest : Bytes) :
    Encoding.splitAtWord word (front ++ rest) =
      (Encoding.splitAtWord word rest).map fun (before, behind) => (front ++ before, behind) := by
  induction front with
  | nil => simp
  | cons b front ih =>
    rw [List.cons_append, splitAtWord_skip, ih fun x hx => h x (List.mem_cons_of_mem _ hx),
      Option.map_map]
    · rfl
    · intro hp
      obtain ⟨c, word, rfl⟩ := List.exists_cons_of_ne_nil hne
      exact h b List.mem_cons_self (congrArg some (List.cons_prefix_cons.mp hp).1.symm)

theorem splitAtWord_here (hne : word ≠ []) (rest : Bytes) :
    Encoding.splitAtWord word (word ++ rest) = some ([], rest) := by
  obtain ⟨c, word, rfl⟩ := List.exists_cons_of_ne_nil hne
  rw [List.cons_append, Encoding.splitAtWord, if_pos, ← List.cons_append, List.drop_left]
  rw [List.isPrefixOf_iff_prefix, ← List.cons_append]
  exact List.prefix_append _ _

end Words

namespace XmlDeclaration

/-- An octet within a declaration: it is ASCII, and no question mark. -/
structure Within (b : UInt8) : Prop where
  ascii : b.toNat < 0x80
  unasked : b ≠ 0x3F

theorem within_space {b : UInt8} (h : Tag.isSpace b) : Within b := by
  unfold Tag.isSpace at h
  simp only [Bool.or_eq_true, beq_iff_eq] at h
  rcases h with ((rfl | rfl) | rfl) | rfl <;> exact ⟨by decide, by decide⟩

theorem within_nameOctet {b : UInt8} (h : isNameOctet b) : Within b := by
  unfold isNameOctet isLetter isDigit at h
  simp only [Bool.or_eq_true, Bool.and_eq_true, decide_eq_true_eq, UInt8.le_iff_toNat_le,
    beq_iff_eq] at h
  have hb {c : UInt8} (hc : b = c) : b.toNat = c.toNat := congrArg UInt8.toNat hc
  constructor
  · rcases h with (((h | h) | h) | h) | h
    · simp at h; omega
    · simp at h; omega
    all_goals rw [hb h]; decide
  · rintro rfl
    revert h
    decide

theorem digit_of_isVersion {v : Bytes} (h : isVersion v) : ∀ b ∈ v, b = 0x2E ∨ isDigit b := by
  unfold isVersion at h
  split at h
  · next d ds =>
    intro b hb
    rw [List.mem_cons, List.mem_cons] at hb
    rcases hb with rfl | rfl | hb
    · exact Or.inr rfl
    · exact Or.inl rfl
    · exact Or.inr (List.all_eq_true.mp h b hb)
  · cases h

theorem nameOctet_of_digit {b : UInt8} (h : b = 0x2E ∨ isDigit b) : isNameOctet b := by
  unfold isNameOctet
  rcases h with rfl | h
  · rfl
  · simp [h]

theorem nameOctet_of_isEncodingName {v : Bytes} (h : isEncodingName v) :
    ∀ b ∈ v, isNameOctet b := by
  unfold isEncodingName at h
  split at h
  · next c rest =>
    rw [Bool.and_eq_true] at h
    intro b hb
    rcases List.mem_cons.mp hb with rfl | hb
    · unfold isNameOctet
      simp [h.1]
    · exact List.all_eq_true.mp h.2 b hb
  · cases h

theorem isYesOrNo_cases {v : Bytes} (h : isYesOrNo v) : v = [0x79, 0x65, 0x73] ∨ v = [0x6E, 0x6F] := by
  obtain ⟨-, -, -, -, -, -, yes, no⟩ := octets_words
  unfold isYesOrNo at h
  rwa [Bool.or_eq_true, beq_iff_eq, beq_iff_eq, yes, no] at h

theorem nameOctet_of_isYesOrNo {v : Bytes} (h : isYesOrNo v) : ∀ b ∈ v, isNameOctet b := by
  rw [← List.all_eq_true]
  rcases isYesOrNo_cases h with rfl | rfl <;> rfl

section

variable {name : String} {isValue : Bytes → Bool} {p : PseudoAttribute name isValue}

theorem within_octets (named : (Bytes.ofString name).all isNameOctet)
    (valued : ∀ b ∈ p.value, isNameOctet b) : ∀ b ∈ p.octets, Within b :=
  p.of_mem_octets (fun _ => within_space) ⟨by decide, by decide⟩ ⟨by decide, by decide⟩
    ⟨by decide, by decide⟩ (fun b hb => within_nameOctet (List.all_eq_true.mp named b hb))
    fun b hb => within_nameOctet (valued b hb)

end

variable {d : XmlDeclaration}

theorem named_words : (Bytes.ofString "version").all isNameOctet ∧
    (Bytes.ofString "encoding").all isNameOctet ∧
    (Bytes.ofString "standalone").all isNameOctet := by
  obtain ⟨-, -, -, version, encoding, standalone, -⟩ := octets_words
  rw [version, encoding, standalone]
  exact ⟨rfl, rfl, rfl⟩

theorem within_tail : ∀ b ∈ d.tail, Within b := by
  intro b hb
  rw [tail, List.mem_append] at hb
  rcases hb with hb | hb
  · cases hs : d.standalone with
    | none =>
      rw [hs] at hb
      cases hb
    | some p =>
      rw [hs] at hb
      exact within_octets named_words.2.2 (nameOctet_of_isYesOrNo p.valued) b hb
  · exact within_space (List.all_eq_true.mp d.blank b hb)

theorem within_inner : ∀ b ∈ d.inner, Within b := by
  intro b hb
  rw [inner, List.mem_append, List.mem_append] at hb
  rcases hb with hb | hb | hb
  · refine within_octets named_words.1 (fun c hc => ?_) b hb
    exact nameOctet_of_digit (digit_of_isVersion d.version.valued c hc)
  · cases he : d.encoding with
    | none =>
      rw [he] at hb
      cases hb
    | some p =>
      rw [he] at hb
      exact within_octets named_words.2.1 (nameOctet_of_isEncodingName p.valued) b hb
  · exact within_tail b hb

theorem ascii_octets : ∀ b ∈ d.octets, b.toNat < 0x80 := by
  obtain ⟨-, close, start, -⟩ := octets_words
  intro b hb
  rw [octets, List.mem_append, List.mem_append, start, close] at hb
  rcases hb with hb | hb | hb
  · simp only [List.mem_cons, List.not_mem_nil, or_false] at hb
    rcases hb with rfl | rfl | rfl | rfl | rfl <;> decide
  · exact (within_inner b hb).ascii
  · simp only [List.mem_cons, List.not_mem_nil, or_false] at hb
    rcases hb with rfl | rfl <;> decide

theorem splitAtWord_inner {p : PseudoAttribute "encoding" isEncodingName}
    (h : d.encoding = some p) : ∃ before,
    Encoding.splitAtWord (Bytes.ofString "encoding") d.inner = some (before, p.tail ++ d.tail) := by
  obtain ⟨-, -, -, version, encoding, -⟩ := octets_words
  rw [encoding]
  let word : Bytes := [0x65, 0x6E, 0x63, 0x6F, 0x64, 0x69, 0x6E, 0x67]
  let P (b : UInt8) : Prop := some b ≠ word.head?
  have hne : word ≠ [] := by decide
  have other {b : UInt8} (h : b ≠ 0x65) : P b := fun hb => h (Option.some.inj hb)
  have space (b : UInt8) (hb : Tag.isSpace b) : P b := other (by rintro rfl; cases hb)
  have digit (b : UInt8) (hb : b = 0x2E ∨ isDigit b) : P b := by
    refine other ?_
    rintro rfl
    revert hb
    decide
  let front : Bytes := [0x72, 0x73, 0x69, 0x6F, 0x6E] ++ (d.version.tail ++ p.space)
  have passed : ∀ b ∈ front, P b := by
    intro b hb
    simp only [front, List.mem_append, List.mem_cons, List.not_mem_nil, or_false] at hb
    rcases hb with hb | hb | hb
    · refine other ?_
      rcases hb with rfl | rfl | rfl | rfl | rfl <;> decide
    · refine d.version.of_mem_tail space (other (by decide)) (other (by decide))
        (other (by decide)) (fun c hc => ?_) b hb
      exact digit c (digit_of_isVersion d.version.valued c hc)
    · exact p.of_mem_space space b hb
  have hinner : d.inner = d.version.space ++ 0x76 :: 0x65 :: (front ++
      (word ++ (p.tail ++ d.tail))) := by
    rw [inner, h]
    simp only [front, PseudoAttribute.octets, version, encoding, Option.elim_some,
      List.append_assoc, List.cons_append, List.nil_append, word]
  refine ⟨d.version.space ++ 0x76 :: 0x65 :: front, ?_⟩
  rw [hinner, splitAtWord_passing (d.version.of_mem_space space) hne, splitAtWord_skip,
    splitAtWord_skip, splitAtWord_passing passed hne, splitAtWord_here hne]
  · simp
  · -- The `e` of `version` goes on with another octet.
    intro hp
    cases (List.cons_prefix_cons.mp (List.cons_prefix_cons.mp hp).2).1
  · intro hp
    cases (List.cons_prefix_cons.mp hp).1

theorem after?_octets (rest : Bytes) : Encoding.after? (Bytes.ofString "<?xml") (d.octets ++ rest) =
    some (d.inner ++ (Bytes.ofString "?>" ++ rest)) := by
  rw [octets, List.append_assoc, List.append_assoc, Encoding.after?, if_pos, List.drop_left]
  rw [List.isPrefixOf_iff_prefix]
  exact List.prefix_append _ _

theorem splitAtWord_close (rest : Bytes) :
    Encoding.splitAtWord (Bytes.ofString "?>") (d.inner ++ (Bytes.ofString "?>" ++ rest)) =
      some (d.inner, rest) := by
  obtain ⟨-, close, -⟩ := octets_words
  rw [close, splitAtWord_passing (fun b hb => ?_) (List.cons_ne_nil _ _),
    splitAtWord_here (List.cons_ne_nil _ _)]
  · simp
  · exact fun hq => (within_inner b hb).unasked (Option.some.inj hq)

/-- The label that is found in a declaration is the name of its encoding. -/
theorem declaredLabel?_octets {p : PseudoAttribute "encoding" isEncodingName}
    (h : d.encoding = some p) : Encoding.declaredLabel? d.octets = some p.value := by
  have unquoted : p.quote ∉ p.value := by
    intro hq
    have hname := nameOctet_of_isEncodingName p.valued _ hq
    rcases p.quoted with hp | hp <;> rw [hp] at hname <;> cases hname
  obtain ⟨before, found⟩ := splitAtWord_inner h
  have value := p.quoted?_assigned unquoted d.tail
  have start := d.after?_octets []
  rw [List.append_nil] at start
  unfold Encoding.declaredLabel?
  simp only [start, d.splitAtWord_close [], found, bind, Option.bind_some]
  exact value

end XmlDeclaration

/-- A document that starts with a declaration has the encoding that its label names, unless that is
UTF-16. -/
theorem declared?_of_declaration {d : XmlDeclaration}
    {p : PseudoAttribute "encoding" XmlDeclaration.isEncodingName} (h : d.encoding = some p)
    {e : Encoding} (he : Encoding.ofLabel? p.value = some e) (hu : e.isUtf16 = false)
    {bytes : Bytes} (front : d.octets <+: bytes) :
    Encoding.sniff bytes = e ∧ Encoding.ofMark? bytes = none := by
  have hd : Encoding.declared? d.octets = some e := by
    unfold Encoding.declared?
    rw [d.declaredLabel?_octets h]
    simp [he, hu]
  obtain ⟨hfront, hmark⟩ := declared_of_front front hd
  exact ⟨sniff_of_declared hfront, hmark⟩

end MapTables
