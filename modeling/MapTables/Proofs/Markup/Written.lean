import MapTables.Encoding.Decoder
import MapTables.Markup.Element

/-!
# Written documents

Elements that carry map data, as a forest, and what writes them: their tags, with other elements,
comments and text anywhere between the tags.
-/

namespace MapTables

/-- Elements one after another, each with the elements inside it. -/
inductive Forest where
  | nil
  | cons (element : Element) (attributes : Attributes) (inside rest : Forest)

namespace Forest

def events : Forest → List Event
  | nil => []
  | cons e a inside rest => .start e a :: (inside.events ++ .close e :: rest.events)

def append : Forest → Forest → Forest
  | nil, G => G
  | cons e a inside rest, G => cons e a inside (rest.append G)

@[simp] theorem events_append (F G : Forest) : (F.append G).events = F.events ++ G.events := by
  induction F with
  | nil => rfl
  | cons e a inside rest _ ih => simp [append, events, ih]

/-- An element around a forest and in front of another. One that carries no map data leaves no
trace. -/
def around : Option (Element × Attributes) → Forest → Forest → Forest
  | some (e, a), inside, rest => cons e a inside rest
  | none, inside, rest => inside.append rest

end Forest

namespace Markup

/-! ## Names -/

/-- A character of names. Of the characters beyond ASCII all may be. -/
def IsNameChar (c : Char) : Prop :=
  c.isAlphanum ∨ c ∈ ['-', '.', '_'] ∨ 0x80 ≤ c.toNat

instance (c : Char) : Decidable (IsNameChar c) := inferInstanceAs (Decidable (_ ∨ _))

def IsName (name : String) : Prop := name ≠ "" ∧ ∀ c ∈ name.toList, IsNameChar c

def IsTagName (name : String) : Prop := name ≠ "" ∧ ∀ c ∈ name.toList, IsNameChar c ∨ c = ':'

instance (name : String) : Decidable (IsName name) :=
  @instDecidableAnd _ _ _ (List.decidableBAll _ _)

instance (name : String) : Decidable (IsTagName name) :=
  @instDecidableAnd _ _ _ (List.decidableBAll _ _)

/-- The name without what stands in front of its first colon. -/
def HasLocalName (name base : String) : Prop :=
  (':' ∉ name.toList ∧ base = name) ∨ ∃ scope, ':' ∉ scope.toList ∧ name = scope ++ ":" ++ base

/-- The name is an element's in any ASCII case. -/
def Denotes (name : String) (e : Element) : Prop :=
  ∃ base, HasLocalName name base ∧ base.toLower = e.word

/-! ## Attributes -/

def IsBlank (s : Bytes) : Prop := ∀ b ∈ s, b ∈ [0x20, 0x09, 0x0A, 0x0D]

instance (s : Bytes) : Decidable (IsBlank s) := List.decidableBAll _ s

abbrev IsQuote (q : UInt8) : Prop := q = 0x22 ∨ q = 0x27

def writtenChar : Char → List Char
  | '&' => "&amp;".toList
  | '<' => "&lt;".toList
  | '>' => "&gt;".toList
  | '"' => "&quot;".toList
  | '\'' => "&apos;".toList
  | c => [c]

def writtenValue (value : String) : Bytes := .ofChars (value.toList.flatMap writtenChar)

/-- Attributes as they stand in a tag, up to the tag's end. -/
inductive WrittenAttributes : Attributes → Bytes → Prop
  | nil {s : Bytes} (blank : IsBlank s) : WrittenAttributes [] s
  | cons {s s' s'' w : Bytes} {q : UInt8} {name value : String} {rest : Attributes}
      (blank : IsBlank s) (apart : s ≠ []) (isName : IsName name) (blank' : IsBlank s')
      (blank'' : IsBlank s'') (quote : IsQuote q) (behind : WrittenAttributes rest w) :
      WrittenAttributes ((name, value) :: rest)
        (s ++ (.ofString name ++ (s' ++ 0x3D :: (s'' ++ q :: (writtenValue value ++ q :: w)))))

/-! ## Tags -/

/-- Quotes come in pairs, and no `>` stands outside of them. -/
inductive Shut : Bytes → Prop
  | nil : Shut []
  | cons {b : UInt8} {w : Bytes} (inner : b ≠ 0x3E ∧ ¬ IsQuote b) (behind : Shut w) : Shut (b :: w)
  | quoted {q : UInt8} {value w : Bytes} (quote : IsQuote q) (closed : q ∉ value)
      (behind : Shut w) : Shut (q :: (value ++ q :: w))

/-- What may stand behind a tag's name. -/
structure Layout (w : Bytes) : Prop where
  apart : ∀ b ∈ w.head?, IsBlank [b]
  shut : Shut w
  last : w.getLast? ≠ some 0x2F

/-- A tag's name and what stands behind it, for an element that carries map data or for another. -/
inductive Heading : Option (Element × Attributes) → String → Bytes → Prop
  | element {e : Element} {attributes : Attributes} {name : String} {w : Bytes}
      (isName : IsTagName name) (denotes : Denotes name e)
      (distinct : (attributes.map Prod.fst).Nodup) (written : WrittenAttributes attributes w) :
      Heading (some (e, attributes)) name w
  | other {name : String} {w : Bytes} (isName : IsTagName name)
      (other : ∀ e, ¬ Denotes name e) (layout : Layout w) : Heading none name w

def tag (name : String) (w : Bytes) : Bytes := 0x3C :: (.ofString name ++ (w ++ [0x3E]))

def endTag (name : String) (s : Bytes) : Bytes := 0x3C :: 0x2F :: (.ofString name ++ (s ++ [0x3E]))

def comment (text : Bytes) : Bytes :=
  [0x3C, 0x21, 0x2D, 0x2D] ++ (text ++ [0x2D, 0x2D, 0x3E])

/-! ## Documents -/

inductive Written : Forest → Bytes → Prop
  | nil : Written .nil []
  | text {t w : Bytes} {F : Forest} (noTag : 0x3C ∉ t) (behind : Written F w) : Written F (t ++ w)
  | comment {t w : Bytes} {F : Forest} (plain : 0x2D ∉ t ∧ 0x3E ∉ t) (behind : Written F w) :
      Written F (comment t ++ w)
  | empty {what : Option (Element × Attributes)} {name : String} {layout w : Bytes} {F : Forest}
      (heading : Heading what name layout) (behind : Written F w) :
      Written (.around what .nil F) (tag name (layout ++ [0x2F]) ++ w)
  | element {what : Option (Element × Attributes)} {name : String} {layout s v w : Bytes}
      {F G : Forest} (heading : Heading what name layout) (inside : Written F v) (blank : IsBlank s)
      (behind : Written G w) :
      Written (.around what F G) (tag name layout ++ (v ++ (endTag name s ++ w)))

variable {F G : Forest} {m w : Bytes} {attributes : Attributes}

/-! ## Which forests can be written -/

/-- The attributes of each element have names, and no name comes twice. -/
def Named : Forest → Prop
  | .nil => True
  | .cons _ attributes inside rest => (∀ name ∈ attributes.map Prod.fst, IsName name) ∧
      (attributes.map Prod.fst).Nodup ∧ Named inside ∧ Named rest

theorem named_append : Named (F.append G) ↔ Named F ∧ Named G := by
  induction F with
  | nil => simp [Forest.append, Named]
  | cons e a inside rest _ ih => simp [Forest.append, Named, ih, and_assoc]

theorem WrittenAttributes.isName (h : WrittenAttributes attributes w) :
    ∀ name ∈ attributes.map Prod.fst, IsName name := by
  induction h with
  | nil => simp
  | cons _ _ isName _ _ _ _ ih => exact List.forall_mem_cons.mpr ⟨isName, ih⟩

theorem exists_writtenAttributes (h : ∀ name ∈ attributes.map Prod.fst, IsName name) :
    ∃ w, WrittenAttributes attributes w := by
  induction attributes with
  | nil => exact ⟨[], .nil (by decide)⟩
  | cons a rest ih =>
    rw [List.map_cons, List.forall_mem_cons] at h
    obtain ⟨w, hw⟩ := ih h.2
    exact ⟨[0x20] ++ (Bytes.ofString a.1 ++
        ([] ++ 0x3D :: ([] ++ 0x22 :: (writtenValue a.2 ++ 0x22 :: w)))),
      .cons (by decide) (by decide) h.1 (by decide) (by decide) (Or.inl rfl) hw⟩

theorem isTagName_word (e : Element) : IsTagName e.word := by
  cases e <;> decide

theorem toList_toLower (s : String) : s.toLower.toList = s.toList.map Char.toLower :=
  String.toList_map ..

theorem denotes_of_lower {name : String} {e : Element} (hcolon : ':' ∉ name.toList)
    (hword : name.toList.map Char.toLower = e.word.toList) : Denotes name e := by
  refine ⟨name, Or.inl ⟨hcolon, rfl⟩, ?_⟩
  rw [← String.toList_inj, toList_toLower, hword]

theorem denotes_word (e : Element) : Denotes e.word e := by
  cases e <;> exact denotes_of_lower (by decide) (by decide)

/-- A forest can be written just if the attributes of each element have names of their own. -/
theorem exists_written_iff : (∃ w, Written F w) ↔ Named F := by
  constructor
  · rintro ⟨w, h⟩
    have around {what : Option (Element × Attributes)} {name : String} {layout : Bytes}
        {F G : Forest} (heading : Heading what name layout) (hF : Named F) (hG : Named G) :
        Named (.around what F G) := by
      cases heading with
      | element _ _ distinct written => exact ⟨written.isName, distinct, hF, hG⟩
      | other => exact named_append.mpr ⟨hF, hG⟩
    induction h with
    | nil => trivial
    | text _ _ ih => exact ih
    | comment _ _ ih => exact ih
    | empty heading _ ih => exact around heading trivial ih
    | element heading _ _ _ ihF ihG => exact around heading ihF ihG
  · intro h
    induction F with
    | nil => exact ⟨[], .nil⟩
    | cons e a inside rest ihF ihG =>
      obtain ⟨isName, distinct, hF, hG⟩ := h
      obtain ⟨layout, hlayout⟩ := exists_writtenAttributes isName
      obtain ⟨v, hv⟩ := ihF hF
      obtain ⟨w, hw⟩ := ihG hG
      exact ⟨_, .element (.element (isTagName_word e) (denotes_word e) distinct hlayout) hv
        (s := []) (by decide) hw⟩

/-! ## Text in front -/

theorem nil_of_tag {v : Bytes} (hm : 0x3C ∉ m) (h : m ++ w = 0x3C :: v) : m = [] := by
  cases m with
  | nil => rfl
  | cons b m =>
    obtain ⟨rfl, -⟩ := List.cons.inj h
    exact absurd List.mem_cons_self hm

theorem Written.of_text (hm : 0x3C ∉ m) (h : Written F (m ++ w)) : Written F w := by
  generalize hd : m ++ w = d at h
  induction h generalizing m with
  | nil =>
    obtain ⟨rfl, rfl⟩ := List.append_eq_nil_iff.mp hd
    exact .nil
  | text noTag behind ih =>
    rcases List.append_eq_append_iff.mp hd with ⟨t', rfl, rfl⟩ | ⟨m', rfl, rfl⟩
    · exact .text (fun ht => noTag (List.mem_append_right _ ht)) behind
    · exact ih (fun ht => hm (List.mem_append_right _ ht)) rfl
  | comment plain behind _ =>
    obtain rfl := nil_of_tag hm hd
    rw [List.nil_append] at hd
    exact hd ▸ .comment plain behind
  | empty heading behind _ =>
    obtain rfl := nil_of_tag hm hd
    rw [List.nil_append] at hd
    exact hd ▸ .empty heading behind
  | element heading inside blank behind _ _ =>
    obtain rfl := nil_of_tag hm hd
    rw [List.nil_append] at hd
    exact hd ▸ .element heading inside blank behind

end Markup
end MapTables
