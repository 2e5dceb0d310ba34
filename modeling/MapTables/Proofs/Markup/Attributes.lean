import Mathlib.Data.List.Perm.Basic
import Mathlib.Data.List.TakeWhile
import MapTables.Markup.Document
import MapTables.Proofs.Markup.Escaped
import MapTables.Proofs.Markup.Names

/-!
# Attributes as they stand in a tag

The attributes of a tag are read one by one, each with its key and its value. They are refused if a
key comes twice or if one of the values is no text, and that goes for every order of them.
-/

namespace MapTables

namespace Markup

/-- An attribute with the blanks before it and around its `=`. -/
structure Attribute where
  space : Bytes
  key : String
  before : Bytes
  after : Bytes
  quote : UInt8
  value : Bytes
  apart : space ≠ []
  blank : IsBlank space
  named : IsTagName key
  blankBefore : IsBlank before
  blankAfter : IsBlank after
  quoted : IsQuote quote
  closed : quote ∉ value

namespace Attribute

def octets (e : Attribute) : Bytes :=
  e.space ++ (.ofString e.key ++ (e.before ++ 0x3D ::
    (e.after ++ e.quote :: (e.value ++ [e.quote]))))

def plain (key : String) (quote : UInt8) (value : Bytes) (named : IsTagName key)
    (quoted : IsQuote quote) (closed : quote ∉ value) : Attribute where
  space := [0x20]
  key := key
  before := []
  after := []
  quote := quote
  value := value
  apart := by decide
  blank := by decide
  named := named
  blankBefore := by decide
  blankAfter := by decide
  quoted := quoted
  closed := closed

/-- What is left of an attribute wherever it stands. -/
def raw (e : Attribute) : String × Bytes := (e.key, e.value)

def line (entries : List Attribute) (tail : Bytes) : Bytes := entries.flatMap octets ++ tail

theorem line_cons (e : Attribute) (entries : List Attribute) (tail : Bytes) :
    line (e :: entries) tail = e.space ++ (.ofString e.key ++ (e.before ++ 0x3D ::
      (e.after ++ e.quote :: (e.value ++ e.quote :: line entries tail)))) := by
  simp [line, octets]

end Attribute

/-- What is read of a key and of a value. -/
structure ReadAs (raw : String × Bytes) (read : String × String) : Prop where
  name : read.1 = Utf8.decodeLossy (Tag.localName (.ofString raw.1))
  value : Tag.valueText raw.2 = .ok read.2

/-- Keys that differ from one another, with values that are texts. -/
structure ReadsAll (raw : List (String × Bytes)) (attributes : Attributes) : Prop where
  distinct : (raw.map Prod.fst).Nodup
  each : List.Forall₂ ReadAs raw attributes

theorem readsAll_nil {a : Attributes} : ReadsAll [] a ↔ a = [] := by
  constructor
  · intro h
    cases h.each
    rfl
  · rintro rfl
    exact ⟨.nil, .nil⟩

theorem readsAll_cons {p : String × Bytes} {raw : List (String × Bytes)} {a : Attributes} :
    ReadsAll (p :: raw) a ↔
      p.1 ∉ raw.map Prod.fst ∧ ∃ q b, ReadAs p q ∧ ReadsAll raw b ∧ a = q :: b := by
  constructor
  · rintro ⟨distinct, each⟩
    rw [List.map_cons, List.nodup_cons] at distinct
    cases each with
    | cons h each => exact ⟨distinct.1, _, _, h, ⟨distinct.2, each⟩, rfl⟩
  · rintro ⟨hp, q, b, h, ⟨distinct, each⟩, rfl⟩
    exact ⟨List.nodup_cons.mpr ⟨hp, distinct⟩, .cons h each⟩

theorem ReadsAll.perm {raw raw' : List (String × Bytes)} {a : Attributes} (h : ReadsAll raw a)
    (hp : raw'.Perm raw) : ∃ a' : Attributes, a'.Perm a ∧ ReadsAll raw' a' := by
  obtain ⟨a', each, hperm⟩ := List.perm_comp_forall₂ hp h.each
  exact ⟨a', hperm, (hp.map Prod.fst).nodup_iff.mpr h.distinct, each⟩

end Markup

/-! ## Reading them -/

namespace Tag

variable {q : UInt8} {s s' s'' key value rest cs : Bytes} {length position : Nat}

theorem equals?_of_blank (length position : Nat) (hs : ∀ b ∈ s, isSpace b = true)
    (hcs : cs = s ++ 0x3D :: rest) :
    ∃ h, equals? length position cs = .ok (position + s.length, ⟨rest, h⟩) := by
  subst hcs
  obtain ⟨ht, hd⟩ := Markup.span_append (c := 0x3D) hs (by decide) rest
  unfold equals?
  simp only [ht]
  split
  · next hd' => cases hd.symm.trans hd'
  · next hd' =>
    cases hd.symm.trans hd'
    exact ⟨by simp only [List.length_append, List.length_cons]; omega, rfl⟩

theorem quoted?_of_blank (length position : Nat) (hs : ∀ b ∈ s, isSpace b = true)
    (hq : Markup.IsQuote q) (hv : q ∉ value) (hcs : cs = s ++ q :: (value ++ q :: rest)) :
    ∃ after h, quoted? length position cs = .ok (value, after, ⟨rest, h⟩) := by
  subst hcs
  have hqs : isSpace q = false := by rcases hq with rfl | rfl <;> decide
  have hin : ∀ b ∈ value, (b != q) = true := fun b hb => by
    rw [bne_iff_ne]
    rintro rfl
    exact hv hb
  obtain ⟨ht, hd⟩ := Markup.span_append hs hqs (value ++ q :: rest)
  obtain ⟨ht', hd'⟩ := Markup.span_append (c := q) hin (bne_self_eq_false q) rest
  unfold quoted?
  simp only [ht]
  split
  · next h => cases hd.symm.trans h
  · next h =>
    cases hd.symm.trans h
    rw [if_pos hq]
    simp only [ht']
    split
    · next h' => cases hd'.symm.trans h'
    · next h' =>
      cases hd'.symm.trans h'
      exact ⟨_, by simp only [List.length_append, List.length_cons]; omega, rfl⟩

theorem next?_of_attribute (length : Nat) (seen : List RawAttribute) (position : Nat) (rest : Bytes)
    (hs : ∀ b ∈ s, isSpace b = true) (hkey : ∀ b ∈ key, isKeyOctet b = true) (hne : key ≠ [])
    (hs' : ∀ b ∈ s', isSpace b = true) (hs'' : ∀ b ∈ s'', isSpace b = true)
    (hq : Markup.IsQuote q) (hv : q ∉ value) :
    let found := next? length seen position
      (s ++ (key ++ (s' ++ 0x3D :: (s'' ++ q :: (value ++ q :: rest)))))
    (key ∉ seen.map RawAttribute.key →
      ∃ start after h, found = .ok (some ⟨⟨key, start, value⟩, after, rest, h⟩)) ∧
    (key ∈ seen.map RawAttribute.key → ∃ f, found = .error f) := by
  obtain ⟨k, ks, rfl⟩ := List.exists_cons_of_ne_nil hne
  have hk : isSpace k = false := by
    have := hkey k List.mem_cons_self
    simp only [isKeyOctet, Bool.and_eq_true, Bool.not_eq_true'] at this
    exact this.2
  have hks : ∀ b ∈ ks, isKeyOctet b = true := fun b hb => hkey b (List.mem_cons_of_mem k hb)
  generalize hbehind : s' ++ 0x3D :: (s'' ++ q :: (value ++ q :: rest)) = behind
  obtain ⟨ht, hd⟩ := Markup.span_append (c := k) hs hk (ks ++ behind)
  -- The key ends at a space or at its `=`.
  have hspan : (ks ++ behind).takeWhile isKeyOctet = ks ∧
      (ks ++ behind).dropWhile isKeyOctet = behind := by
    subst hbehind
    cases s' with
    | nil => exact Markup.span_append (c := 0x3D) hks (by decide) _
    | cons b s' =>
      exact Markup.span_append hks (by simp [isKeyOctet, hs' b List.mem_cons_self]) _
  obtain ⟨_, hequals⟩ := equals?_of_blank length (position + s.length + (k :: ks).length) hs'
    (hspan.2.trans hbehind.symm)
  obtain ⟨after, _, hquoted⟩ := quoted?_of_blank length
    (position + s.length + (k :: ks).length + s'.length + 1) hs'' hq hv
    (show s'' ++ q :: (value ++ q :: rest) = _ from rfl)
  intro found
  change (_ → ∃ start after h, next? length seen position (s ++ k :: (ks ++ behind)) = _) ∧
    (_ → ∃ f, next? length seen position (s ++ k :: (ks ++ behind)) = _)
  constructor
  · intro unseen
    have hseen : seen.find? (fun a => a.key == k :: ks) = none := by
      rw [List.find?_eq_none]
      intro a ha hak
      exact unseen (List.mem_map.mpr ⟨a, ha, by simpa using hak⟩)
    refine ⟨position + s.length, after, ?_, ?_⟩
    · subst hbehind
      simp only [List.length_append, List.length_cons]
      omega
    unfold next?
    split
    · next h => cases hd.symm.trans h
    · next h =>
      cases hd.symm.trans h
      simp only [ht, hspan.1, hequals, hseen, hquoted, bind, Except.bind]
      rfl
  · intro hseen
    obtain ⟨a, ha, hak⟩ := List.mem_map.mp hseen
    have hsome : (seen.find? fun a => a.key == k :: ks).isSome = true :=
      List.find?_isSome.mpr ⟨a, ha, by simpa using hak⟩
    obtain ⟨previous, hfind⟩ := Option.isSome_iff_exists.mp hsome
    unfold next?
    split
    · next h => cases hd.symm.trans h
    · next h =>
      cases hd.symm.trans h
      simp only [ht, hspan.1, hequals, hfind, bind, Except.bind]
      exact ⟨_, rfl⟩

theorem next?_of_blank {seen : List RawAttribute} (hs : ∀ b ∈ s, isSpace b = true) :
    next? length seen position s = .ok none := by
  have hd : s.dropWhile isSpace = [] := List.dropWhile_eq_nil_iff.mpr hs
  unfold next?
  split
  · rfl
  · next h => cases hd.symm.trans h

theorem isKeyOctet_of_name {name : String} (h : Markup.IsTagName name) :
    ∀ b ∈ Bytes.ofString name, isKeyOctet b = true := by
  intro b hb
  have hequals : b ≠ 0x3D := by
    rintro rfl
    exact h.notMem (by decide) hb
  simp [isKeyOctet, hequals, h.not_isSpace b hb]

open Markup in
theorem unseen_cons {entries : List Attribute} {seen : List RawAttribute} {first : RawAttribute}
    {name : String} (hfirst : first.key = .ofString name) :
    (∀ e ∈ entries, Bytes.ofString e.key ∉ (first :: seen).map RawAttribute.key) ↔
      name ∉ (entries.map Attribute.raw).map Prod.fst ∧
        ∀ e ∈ entries, Bytes.ofString e.key ∉ seen.map RawAttribute.key := by
  rw [List.map_map]
  constructor
  · intro h
    refine ⟨fun hn => ?_, fun e he hm => h e he (List.mem_cons_of_mem _ hm)⟩
    obtain ⟨e, he, rfl⟩ := List.mem_map.mp hn
    apply h e he
    rw [List.map_cons, hfirst]
    exact List.mem_cons_self
  · rintro ⟨hn, h⟩ e he hm
    rcases List.mem_cons.mp hm with hkey | hm
    · apply hn
      rw [← Utf8.ofString_injective (hkey.trans hfirst)]
      exact List.mem_map.mpr ⟨e, he, rfl⟩
    · exact h e he hm

open Markup in
theorem attributesFrom_line {entries : List Attribute} {tail : Bytes} (blank : IsBlank tail)
    {seen : List RawAttribute} {done read : Array (String × String)} :
    attributesFrom length seen done position (Attribute.line entries tail) = .ok read ↔
      (∀ e ∈ entries, Bytes.ofString e.key ∉ seen.map RawAttribute.key) ∧
        ∃ a, ReadsAll (entries.map Attribute.raw) a ∧ read = done ++ a := by
  -- What was seen and read before grows with each attribute.
  induction entries generalizing seen done position with
  | nil =>
    rw [attributesFrom, Attribute.line, List.flatMap_nil, List.nil_append,
      next?_of_blank blank.isSpace]
    simp [readsAll_nil, eq_comm]
  | cons e entries ih =>
    obtain ⟨hfirst, hagain⟩ := next?_of_attribute length seen position
      (Attribute.line entries tail) e.blank.isSpace (isKeyOctet_of_name e.named)
      (ofString_ne_nil e.named.1) e.blankBefore.isSpace e.blankAfter.isSpace e.quoted e.closed
    rw [attributesFrom, Attribute.line_cons, List.forall_mem_cons, List.map_cons]
    simp only [readsAll_cons]
    by_cases hseen : Bytes.ofString e.key ∈ seen.map RawAttribute.key
    · obtain ⟨f, hf⟩ := hagain hseen
      simp [hf, hseen]
    · -- The key is new, so it is up to the value and to the attributes behind it.
      obtain ⟨start, after, _, hnext⟩ := hfirst hseen
      simp only [hnext]
      cases hv : valueText e.value with
      | error f =>
        have unread (q : String × String) : ¬ ReadAs e.raw q := fun h => by
          cases hv.symm.trans h.value
        simp [unread]
      | ok text =>
        have readAs {q : String × String} : ReadAs e.raw q ↔
            q = (Utf8.decodeLossy (localName (.ofString e.key)), text) := by
          constructor
          · intro h
            exact Prod.ext h.name (Except.ok.inj (h.value.symm.trans hv))
          · rintro rfl
            exact ⟨rfl, hv⟩
        simp only [readAs]
        rw [ih, unseen_cons rfl]
        constructor
        · rintro ⟨⟨hkey, unseen⟩, a, h, rfl⟩
          exact ⟨⟨hseen, unseen⟩, _, ⟨hkey, _, a, rfl, h, rfl⟩, by simp⟩
        · rintro ⟨⟨-, unseen⟩, _, ⟨hkey, _, a, rfl, h, rfl⟩, rfl⟩
          exact ⟨⟨hkey, unseen⟩, a, h, by simp⟩

open Markup in
theorem attributes_line {entries : List Attribute} {tail name : Bytes} (blank : IsBlank tail)
    {a : Attributes} : attributes (name ++ Attribute.line entries tail) name.length = .ok a ↔
      ReadsAll (entries.map Attribute.raw) a := by
  rw [attributes, List.drop_left, map_eq_ok]
  simp only [attributesFrom_line blank]
  constructor
  · rintro ⟨_, ⟨-, a', h, rfl⟩, rfl⟩
    simpa using h
  · intro h
    exact ⟨_, ⟨by simp, a, h, rfl⟩, by simp⟩

end Tag

namespace Markup

variable {s v w : Bytes} {name : String} {a : Attributes}

/-! ## Up to the end of a tag -/

theorem Shut.of_plain (h : ∀ b ∈ w, b ≠ 0x3E ∧ ¬ IsQuote b) : Shut w := by
  induction w with
  | nil => exact .nil
  | cons b w ih =>
    exact .cons (h b List.mem_cons_self) (ih fun b' hb => h b' (List.mem_cons_of_mem b hb))

theorem Shut.append (hv : Shut v) (hw : Shut w) : Shut (v ++ w) := by
  induction hv with
  | nil => exact hw
  | cons inner _ ih => exact .cons inner ih
  | quoted quote closed _ ih =>
    rw [List.cons_append, List.append_assoc, List.cons_append]
    exact .quoted quote closed ih

theorem IsBlank.shut (h : IsBlank s) : Shut s := by
  refine .of_plain fun b hb => ?_
  have plain : ∀ b ∈ ([0x20, 0x09, 0x0A, 0x0D] : Bytes), b ≠ 0x3E ∧ ¬ (b = 0x22 ∨ b = 0x27) := by
    decide +kernel
  exact plain b (h b hb)

theorem IsTagName.shut (h : IsTagName name) : Shut (.ofString name) := by
  refine .of_plain fun b hb => ⟨?_, ?_⟩
  · rintro rfl
    exact h.notMem (by decide) hb
  · rintro (rfl | rfl)
    · exact h.notMem (by decide) hb
    · exact h.notMem (by decide) hb

namespace Attribute

theorem shut_line {tail : Bytes} (blank : IsBlank tail) (entries : List Attribute) :
    Shut (line entries tail) := by
  induction entries with
  | nil => exact blank.shut
  | cons e entries ih =>
    rw [line_cons]
    refine e.blank.shut.append (e.named.shut.append (e.blankBefore.shut.append ?_))
    refine .cons (by simp [IsQuote]) (e.blankAfter.shut.append ?_)
    exact .quoted e.quoted e.closed ih

theorem last_line {tail : Bytes} (blank : IsBlank tail) (entries : List Attribute) :
    (line entries tail).getLast? ≠ some 0x2F := by
  induction entries with
  | nil =>
    intro h
    exact absurd (blank _ (List.mem_of_getLast? h)) (by decide)
  | cons e entries ih =>
    have hfront : line (e :: entries) tail = (e.space ++ .ofString e.key ++ e.before ++
        0x3D :: e.after ++ e.quote :: e.value) ++ e.quote :: line entries tail := by
      simp [line_cons]
    rw [hfront, List.getLast?_append, List.getLast?_cons, Option.some_or]
    cases hl : (line entries tail).getLast? with
    | none =>
      have hq := e.quoted
      rw [Option.getD_none]
      rcases hq with hq | hq <;> rw [hq] <;> decide
    | some b => rwa [hl] at ih

theorem layout_line {tail : Bytes} (blank : IsBlank tail) (entries : List Attribute) :
    Layout (line entries tail) := by
  refine ⟨fun b hb => ?_, shut_line blank entries, last_line blank entries⟩
  have hb : b ∈ tail ∨ ∃ e ∈ entries, b ∈ e.space := by
    cases entries with
    | nil => exact Or.inl (List.mem_of_mem_head? hb)
    | cons e entries =>
      obtain ⟨c, space, hspace⟩ := List.exists_cons_of_ne_nil e.apart
      rw [line_cons, hspace] at hb
      obtain rfl : c = b := Option.some.inj hb
      exact Or.inr ⟨e, List.mem_cons_self, by rw [hspace]; exact List.mem_cons_self⟩
  intro b' hb'
  obtain rfl : b' = b := List.mem_singleton.mp hb'
  rcases hb with hb | ⟨e, -, hb⟩
  · exact blank b' hb
  · exact e.blank b' hb

end Attribute

/-! ## Written attributes -/

theorem WrittenAttributes.line (h : WrittenAttributes a w) :
    ∃ entries tail, IsBlank tail ∧ w = Attribute.line entries tail ∧
      entries.map Attribute.raw = a.map fun p => (p.1, writtenValue p.2) := by
  induction h with
  | @nil s blank => exact ⟨[], s, blank, rfl, rfl⟩
  | @cons s s' s'' w q name value rest blank apart isName blank' blank'' quote _ ih =>
    obtain ⟨entries, tail, hblank, rfl, hraw⟩ := ih
    refine ⟨⟨s, name, s', s'', q, writtenValue value, apart, blank, isName.isTagName, blank',
      blank'', quote, Tag.quote_notMem_written quote⟩ :: entries, tail, hblank, ?_, ?_⟩
    · rw [Attribute.line_cons]
    · rw [List.map_cons, List.map_cons, hraw, Attribute.raw]

theorem WrittenAttributes.layout (h : WrittenAttributes a w) : Layout w := by
  obtain ⟨entries, tail, blank, rfl, -⟩ := h.line
  exact Attribute.layout_line blank entries

/-- Written attributes are read in their order, with their names and values. -/
theorem WrittenAttributes.attributes (h : WrittenAttributes a w)
    (distinct : (a.map Prod.fst).Nodup) (name : Bytes) :
    Tag.attributes (name ++ w) name.length = .ok a := by
  have named := h.isName
  obtain ⟨entries, tail, blank, rfl, hraw⟩ := h.line
  rw [Tag.attributes_line blank, hraw]
  constructor
  · simpa [Function.comp_def] using distinct
  · rw [List.forall₂_map_left_iff, List.forall₂_same]
    intro p hp
    have isName := named p.1 (List.mem_map.mpr ⟨p, hp, rfl⟩)
    exact ⟨by rw [isName.hasLocalName.localName, Utf8.decodeLossy_ofString],
      Tag.valueText_written⟩

end Markup
end MapTables
