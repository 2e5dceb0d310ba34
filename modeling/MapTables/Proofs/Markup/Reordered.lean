import MapTables.Proofs.Assembly.Lookups
import MapTables.Proofs.Markup.Mended
import MapTables.Proofs.Markup.RoundTrip

/-!
# Attributes in another order

Of a start tag with its attributes in another order the same is read, in that order. So a document
with such tags tells the same events, but for the order of their attributes.
-/

namespace MapTables

/-- Two events of an element. The same is found of the attributes of both. -/
inductive Event.Matches : Event → Event → Prop
  | start {e : Element} {a a' : Attributes} (same : a.Matches a') :
      Matches (.start e a) (.start e a')
  | close {e : Element} : Matches (.close e) (.close e)

theorem Event.Matches.refl (e : Event) : e.Matches e := by
  cases e with
  | start e a => exact .start (.refl a)
  | close e => exact .close

def Item.Matches (i i' : Item) : Prop := Option.Rel Event.Matches i.event? i'.event?

namespace Markup

/-! ## Start tags -/

/-- A start tag, which may be that of an element without content. -/
structure StartTag where
  name : String
  entries : List Attribute
  tail : Bytes
  empty : Bool
  named : IsTagName name
  blank : IsBlank tail

namespace StartTag

variable {t t' : StartTag} {a : Attributes}

def line (t : StartTag) : Bytes := Attribute.line t.entries t.tail

def slash (t : StartTag) : Bytes := if t.empty then [0x2F] else []

def octets (t : StartTag) : Bytes := tag t.name (t.line ++ t.slash)

def part (t : StartTag) : Part := .opens (.ofString t.name ++ (t.line ++ t.slash))

def element? (t : StartTag) : Option Element := Element.ofName? (Tag.localName (.ofString t.name))

def Reads (t : StartTag) (a : Attributes) : Prop :=
  Tag.attributes (.ofString t.name ++ t.line) (Bytes.ofString t.name).length = .ok a

/-- The attributes of the second one are those of the first, in another order. Blanks and quotes may
differ. -/
structure Reorders (t t' : StartTag) : Prop where
  name : t'.name = t.name
  empty : t'.empty = t.empty
  raw : (t'.entries.map Attribute.raw).Perm (t.entries.map Attribute.raw)

/-- Whatever the order is, the same is found of the attributes, or nobody looks for it. -/
def Settled (t : StartTag) : Prop := t.element?.isSome → ∀ a, t.Reads a → a.Settled

theorem layout (t : StartTag) : Layout t.line := Attribute.layout_line t.blank t.entries

theorem isPart (t : StartTag) : IsPart t.octets t.part := by
  refine isPart_tag t.named (t.layout.shut.append ?_)
  unfold slash
  split
  · exact .of_plain (by decide +kernel)
  · exact .nil

theorem reads_iff : t.Reads a ↔ ReadsAll (t.entries.map Attribute.raw) a :=
  Tag.attributes_line t.blank

theorem Reads.unique {a' : Attributes} (h : t.Reads a) (h' : t.Reads a') : a' = a :=
  Except.ok.inj (h'.symm.trans h)

namespace Reorders

theorem symm (h : t.Reorders t') : t'.Reorders t := ⟨h.name.symm, h.empty.symm, h.raw.symm⟩

theorem reads (h : t.Reorders t') (ha : t.Reads a) :
    ∃ a' : Attributes, a'.Perm a ∧ t'.Reads a' := by
  obtain ⟨a', hperm, reads⟩ := (reads_iff.mp ha).perm h.raw
  exact ⟨a', hperm, reads_iff.mpr reads⟩

theorem elementEvents (h : t.Reorders t') (settled : t.Settled) :
    Option.Rel (List.Forall₂ Event.Matches)
      (elementEvents (.ofString t.name) (.ofString t.name ++ t.line) t.empty).toOption
      (elementEvents (.ofString t'.name) (.ofString t'.name ++ t'.line) t'.empty).toOption := by
  have same : Element.ofName? (Tag.localName (.ofString t'.name)) = t.element? := by
    rw [element?, h.name]
  unfold Markup.elementEvents
  rw [same, h.empty, ← element?]
  cases he : t.element? with
  | none => exact .some .nil
  | some e =>
    simp only
    cases ha : Tag.attributes (.ofString t.name ++ t.line) (Bytes.ofString t.name).length with
    | error f =>
      cases ha' : Tag.attributes (.ofString t'.name ++ t'.line) (Bytes.ofString t'.name).length with
      | error f' => exact .none
      | ok a' =>
        -- Then the first tag could be read too.
        obtain ⟨a, -, reads⟩ := h.symm.reads ha'
        cases ha.symm.trans reads
    | ok a =>
      obtain ⟨a', hperm, reads'⟩ := h.reads ha
      have found := (settled (by rw [he]; rfl) a ha).matches hperm
      rw [show Tag.attributes _ _ = _ from reads']
      refine .some ?_
      cases t.empty with
      | true => exact .cons (.start found) (.cons .close .nil)
      | false => exact .cons (.start found) .nil

end Reorders

theorem Reads.exists_reorders {a' : Attributes} (h : t.Reads a) (hp : a'.Perm a) :
    ∃ t', t.Reorders t' ∧ t'.Reads a' := by
  obtain ⟨distinct, each⟩ := reads_iff.mp h
  rw [List.forall₂_map_left_iff] at each
  obtain ⟨entries, each', hperm⟩ := List.perm_comp_forall₂ hp each.flip
  have raw := hperm.map Attribute.raw
  refine ⟨{ t with entries }, ⟨rfl, rfl, raw⟩, reads_iff.mpr ⟨?_, ?_⟩⟩
  · exact (raw.map Prod.fst).nodup_iff.mpr distinct
  · exact List.forall₂_map_left_iff.mpr each'.flip

theorem Reads.settled_iff (h : t.Reads a) :
    (∀ t', t.Reorders t' → ∃ a', t'.Reads a' ∧ a.Matches a') ↔ a.Settled := by
  constructor
  · rintro hall ⟨_, v⟩ hp ⟨name, v'⟩ hq hn rfl
    -- For every order of what is read there is a tag.
    have found : ∀ a' : Attributes, a'.Perm a → a'.get? name = a.get? name := by
      intro a' hperm
      obtain ⟨t', ht, reads⟩ := h.exists_reorders hperm
      obtain ⟨b, reads', same⟩ := hall t' ht
      rw [← reads.unique reads']
      exact same name hn
    exact Attributes.get?_perm_iff.mp found v' v hq hp
  · intro settled t' ht
    obtain ⟨a', hperm, reads⟩ := ht.reads h
    exact ⟨a', reads, settled.matches hperm⟩

end StartTag

/-! ## Constructs -/

structure Effect.Matches (e e' : Effect) : Prop where
  openNames : e'.openNames = e.openNames
  events : List.Forall₂ Event.Matches e.events e'.events
  fault : e'.fault.isSome = e.fault.isSome

theorem Effect.Matches.refl (e : Effect) : e.Matches e :=
  ⟨rfl, List.forall₂_same.mpr fun event _ => .refl event, rfl⟩

theorem Effect.Matches.items {e e' : Effect} (h : e.Matches e')
    (position drawn position' drawn' : Nat) :
    List.Forall₂ Item.Matches (e.items position drawn) (e'.items position' drawn') := by
  have hfault := h.fault
  unfold Effect.items
  cases hf : e.fault with
  | some fault =>
    rw [hf] at hfault
    obtain ⟨fault', hf'⟩ := Option.isSome_iff_exists.mp hfault
    rw [hf']
    exact .cons .none .nil
  | none =>
    rw [hf, Option.isSome_none, Option.isSome_eq_false_iff, Option.isNone_iff_eq_none] at hfault
    rw [hfault]
    simp only
    rw [List.forall₂_map_left_iff, List.forall₂_map_right_iff]
    exact h.events.imp fun _ _ h => .some h

def Part.Matches (p p' : Part) : Prop :=
  ∀ names, Option.Rel Effect.Matches (effect names p).toOption (effect names p').toOption

theorem Part.Matches.refl (p : Part) : p.Matches p := by
  intro names
  cases effect names p with
  | ok e => exact .some (.refl e)
  | error refusal => exact .none

theorem StartTag.Reorders.part {t t' : StartTag} (h : t.Reorders t') (settled : t.Settled) :
    t.part.Matches t'.part := by
  intro names
  refine .some ?_
  have hevents := h.elementEvents settled
  obtain ⟨hinner, hname, hlast⟩ := t.layout.reads t.named t.empty
  obtain ⟨hinner', hname', hlast'⟩ := t'.layout.reads t'.named t'.empty
  change (openTag names _).Matches (openTag names _)
  unfold slash
  rw [openTag_eq, openTag_eq, hinner, hname, hlast, hinner', hname', hlast']
  simp only
  cases he : Markup.elementEvents (.ofString t.name) (.ofString t.name ++ t.line) t.empty with
  | ok events =>
    rw [he] at hevents
    obtain ⟨events', he', hmatch⟩ := ok_of_rel hevents
    rw [he']
    exact ⟨by simp only [h.name, h.empty], hmatch, rfl⟩
  | error fault =>
    rw [he] at hevents
    obtain ⟨fault', he'⟩ := error_of_rel hevents
    rw [he']
    exact ⟨by simp only [h.name, h.empty], .nil, rfl⟩

def IsFault (octets : Bytes) : Prop :=
  ∃ b more, octets = 0x3C :: b :: more ∧
    ∀ ends offset rest, ∃ f, take false ends offset (b :: more ++ rest) = .error f

/-- At an instruction that has a `>` inside the reader stops. -/
theorem isFault_instruction {v : Bytes} (inside : 0x3E ∉ v) (last : v.getLast? ≠ some 0x3F) :
    IsFault (0x3C :: 0x3F :: (v ++ [0x3E])) := by
  refine ⟨_, _, rfl, fun ends offset rest => ?_⟩
  have hin : 0x3E ∉ 0x3F :: v := by simp [inside]
  have hopen : ¬ (2 < (0x3F :: v).length ∧ (0x3F :: v).getLast? = some 0x3F) := by
    rintro ⟨hlong, hlast⟩
    cases v with
    | nil => simp at hlong
    | cons b v => exact last hlast
  obtain ⟨hl, hupto⟩ := upto_append false (isContent_of_notMem hin) rest
  have hdeclaration : takeDeclaration false (0x3F :: v ++ 0x3E :: rest) =
      .error (.malformed 1 (.unfinished .declaration)) := by
    unfold takeDeclaration
    rw [hupto]
    simp only [hopen, if_false, Nat.add_sub_cancel_left]
  have htake : take false ends offset (0x3F :: (v ++ 0x3E :: rest)) =
      takeDeclaration false (0x3F :: (v ++ 0x3E :: rest)) := by
    rw [take, if_neg (by decide), if_pos rfl]
  exact ⟨_, Cursor.take_congr_error (by simp) (htake.trans hdeclaration)⟩

/-! ## Documents -/

/-- The second one has the attributes of its start tags in another order. -/
inductive Reordered : Bytes → Bytes → Prop
  | nil : Reordered [] []
  | text {t v v' : Bytes} (noTag : 0x3C ∉ t) (behind : Reordered v v') :
      Reordered (t ++ v) (t ++ v')
  | part {octets v v' : Bytes} {p : Part} (isPart : IsPart octets p) (behind : Reordered v v') :
      Reordered (octets ++ v) (octets ++ v')
  | tag {t t' : StartTag} {v v' : Bytes} (reorders : t.Reorders t') (settled : t.Settled)
      (behind : Reordered v v') : Reordered (t.octets ++ v) (t'.octets ++ v')
  | unread {octets : Bytes} (isFault : IsFault octets) (v v' : Bytes) :
      Reordered (octets ++ v) (octets ++ v')

namespace Cursor

structure Matches (c c' : Cursor) : Prop where
  openNames : c'.openNames = c.openNames
  done : List.Forall₂ Item.Matches c.done.toList c'.done.toList

variable {c c' : Cursor} {octets octets' tail tail' : Bytes} {p p' : Part}

theorem Matches.halt (h : c.Matches c') (fault fault' : ReadFault) (position position' : Nat) :
    List.Forall₂ Item.Matches (c.halt fault position).items (c'.halt fault' position').items := by
  rw [halt_items, halt_items]
  exact List.rel_append h.done (.cons .none .nil)

theorem Matches.move (h : c.Matches c') {e e' : Effect} (he : e.Matches e') (taken : Taken c.body)
    (taken' : Taken c'.body) : (c.move taken e).Matches (c'.move taken' e') := by
  refine ⟨he.openNames, ?_⟩
  simp only [Cursor.move, Array.toList_appendList]
  exact List.rel_append h.done (he.items _ _ _ _)

theorem Matches.read_part (h : c.Matches c') (hc : c.At (octets ++ tail))
    (hc' : c'.At (octets' ++ tail')) (isPart : IsPart octets p) (isPart' : IsPart octets' p')
    (hp : p.Matches p') (behind : ∀ d d' : Cursor, d.At tail → d'.At tail' → d.Matches d' →
      List.Forall₂ Item.Matches (d.read none).items (d'.read none).items) :
    List.Forall₂ Item.Matches (c.read none).items (c'.read none).items := by
  obtain ⟨taken, ht, hpart, hrest⟩ := hc.take_part isPart false
  obtain ⟨taken', ht', hpart', hrest'⟩ := hc'.take_part isPart' false
  have heffect := hp c.openNames
  rw [← hpart, ← hpart'] at heffect
  rw [read_eq none (body_ne_nil ht), read_eq none (body_ne_nil ht'), h.openNames]
  simp only [Option.isSome_none, ht, ht']
  cases he : effect c.openNames taken.part with
  | error refusal =>
    rw [he] at heffect
    obtain ⟨refusal', he'⟩ := error_of_rel heffect
    simp only [he']
    exact h.halt _ _ _ _
  | ok e =>
    rw [he] at heffect
    obtain ⟨e', he', hmatch⟩ := ok_of_rel heffect
    simp only [he']
    exact behind _ _ ⟨[], by simp, hrest⟩ ⟨[], by simp, hrest'⟩ (h.move hmatch taken taken')

theorem At.halts (h : c.At (octets ++ tail)) (isFault : IsFault octets) :
    ∃ fault position, c.read none = c.halt fault position := by
  obtain ⟨text, ht, hr⟩ := h
  obtain ⟨b, more, rfl, htake⟩ := isFault
  obtain ⟨-, hbody⟩ := body_of_rest (isText_of_notMem ht)
    (show c.rest = text ++ 0x3C :: (b :: more ++ tail) from hr)
  obtain ⟨f, hf⟩ := htake (c.endsAhead.map Prod.fst) c.start tail
  have hf := take_congr_error hbody.symm hf
  rw [read_eq none (by rw [hbody]; exact List.cons_ne_nil _ _)]
  simp only [Option.isSome_none, hf]
  exact ⟨_, _, rfl⟩

end Cursor

theorem Reordered.read {v v' : Bytes} (h : Reordered v v') {c c' : Cursor} (hc : c.At v)
    (hc' : c'.At v') (hm : c.Matches c') :
    List.Forall₂ Item.Matches (c.read none).items (c'.read none).items := by
  induction h generalizing c c' with
  | nil =>
    rw [Cursor.read_of_nothing hc.body_nil, Cursor.read_of_nothing hc'.body_nil]
    exact hm.done
  | text noTag _ ih => exact ih (hc.behind_text noTag) (hc'.behind_text noTag) hm
  | part isPart _ ih =>
    exact hm.read_part hc hc' isPart isPart (.refl _) fun d d' hd hd' h => ih hd hd' h
  | @tag t t' _ _ reorders settled _ ih =>
    exact hm.read_part hc hc' t.isPart t'.isPart (reorders.part settled) fun d d' hd hd' h =>
      ih hd hd' h
  | unread isFault =>
    obtain ⟨fault, position, hread⟩ := hc.halts isFault
    obtain ⟨fault', position', hread'⟩ := hc'.halts isFault
    rw [hread, hread']
    exact hm.halt _ _ _ _

/-- Two readers come, having read the same, to documents with their attributes in another order.
What lies before that is left alone, such as a document type. -/
def Cursor.Reordered (c c' : Cursor) : Prop :=
  ∃ d d', Relation.ReflTransGen Takes c d ∧ Relation.ReflTransGen Takes c' d' ∧
    d'.openNames = d.openNames ∧
    d'.done.toList.map Item.event? = d.done.toList.map Item.event? ∧
    Markup.Reordered d.rest d'.rest

theorem Cursor.read_of_takes {c c' : Cursor} (h : Relation.ReflTransGen Takes c c') :
    c.read none = c'.read none := by
  induction h with
  | refl => rfl
  | tail _ step ih =>
    obtain ⟨taken, e, ht, he, rfl⟩ := step
    exact ih.trans (read_of_take none ht he)

theorem Cursor.Reordered.read {c c' : Cursor} (h : c.Reordered c') :
    List.Forall₂ Item.Matches (c.read none).items (c'.read none).items := by
  obtain ⟨d, d', hd, hd', openNames, done, reordered⟩ := h
  rw [read_of_takes hd, read_of_takes hd']
  have same : List.Forall₂ Item.Matches d.done.toList d'.done.toList := by
    rw [← List.forall₂_eq_eq_eq, List.forall₂_map_left_iff, List.forall₂_map_right_iff] at done
    refine done.flip.imp fun i i' h => ?_
    rw [Item.Matches, show i'.event? = i.event? from h]
    cases i.event? with
    | none => exact .none
    | some e => exact .some (.refl e)
  exact reordered.read ⟨[], by simp, rfl⟩ ⟨[], by simp, rfl⟩ ⟨openNames, same⟩

end Markup
end MapTables
