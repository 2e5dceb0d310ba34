import Mathlib.Data.List.Lattice
import Mathlib.Data.List.Nodup
import Mathlib.Data.List.Pairwise
import Mathlib.Data.List.TakeWhile
import MapTables.Proofs.Input.Declaration

/-!
# What a declaration tells

A document that starts with a declaration is read in the encoding whose label the declaration
gives. What follows the declaration tells nothing.
-/

namespace MapTables

/-! ## Labels -/

namespace Encoding

def GoesBy (e : Encoding) (name : Bytes) : Prop := lowerText name ∈ e.labels

theorem labels_nodup : (all.flatMap labels).Nodup := by decide +kernel

theorem GoesBy.unique {e e' : Encoding} {name : Bytes} (h : e.GoesBy name) (h' : e'.GoesBy name) :
    e = e' := by
  by_contra hne
  have : Std.Symm (Function.onFun List.Disjoint labels) := ⟨fun _ _ => List.Disjoint.symm⟩
  exact (List.nodup_flatMap.mp labels_nodup).2.forall (mem_all e) (mem_all e') hne h h'

theorem ofLabel?_eq_some_iff {name : Bytes} {e : Encoding} :
    ofLabel? name = some e ↔ e.GoesBy (trimLabel name) := by
  constructor
  · exact labels_of_ofLabel?
  · intro h
    cases hl : ofLabel? name with
    | none =>
      have unknown := List.find?_eq_none.mp hl e (mem_all e)
      simp only [List.contains_eq_mem, decide_eq_true_eq] at unknown
      exact absurd h unknown
    | some e' =>
      have named : e'.GoesBy (trimLabel name) := labels_of_ofLabel? hl
      rw [named.unique h]

theorem trimLabel_self {name : Bytes} (h : ∀ b ∈ name, ¬ isLabelSpace b) :
    trimLabel name = name := by
  have kept {bytes : Bytes} (hb : ∀ b ∈ bytes, ¬ isLabelSpace b) :
      bytes.dropWhile isLabelSpace = bytes :=
    List.dropWhile_eq_self_iff.mpr fun hl => hb _ (List.getElem_mem hl)
  rw [trimLabel, kept h, kept fun b hb => h b (List.mem_reverse.mp hb), List.reverse_reverse]

end Encoding

/-! ## The label of a declaration -/

namespace XmlDeclaration

theorem not_labelSpace_of_nameOctet {b : UInt8} (h : isNameOctet b) :
    ¬ Encoding.isLabelSpace b := by
  intro hs
  unfold Encoding.isLabelSpace at hs
  simp only [Bool.or_eq_true, beq_iff_eq] at hs
  rcases hs with (((rfl | rfl) | rfl) | rfl) | rfl <;> cases h

variable {d : XmlDeclaration}

/-- The word does not stand in a declaration that gives no encoding: its third letter does not. -/
theorem splitAtWord_of_plain (h : d.encoding = none) :
    Encoding.splitAtWord (Bytes.ofString "encoding") d.inner = none := by
  obtain ⟨-, -, -, version, encoding, standalone, -⟩ := octets_words
  let P (b : UInt8) : Prop := b ≠ 0x63
  have space (b : UInt8) (hb : Tag.isSpace b) : P b := by
    rintro rfl
    cases hb
  have digit (b : UInt8) (hb : b = 0x2E ∨ isDigit b) : P b := by
    rintro rfl
    revert hb
    decide
  have absent : ∀ b ∈ d.inner, P b := by
    intro b hb
    rw [inner, h, Option.elim_none, List.nil_append, tail, List.mem_append, List.mem_append] at hb
    rcases hb with hb | hb | hb
    · refine d.version.of_mem_octets space (by decide) (by decide) (by decide) ?_
        (fun c hc => ?_) b hb
      · rw [version]
        simp [P]
      · exact digit c (digit_of_isVersion d.version.valued c hc)
    · cases hs : d.standalone with
      | none =>
        rw [hs] at hb
        cases hb
      | some p =>
        rw [hs] at hb
        refine p.of_mem_octets space (by decide) (by decide) (by decide) ?_ ?_ b hb
        · rw [standalone]
          simp [P]
        · rcases isYesOrNo_cases p.valued with hv | hv <;> rw [hv] <;> simp [P]
    · exact space b (List.all_eq_true.mp d.blank b hb)
  cases hw : Encoding.splitAtWord (Bytes.ofString "encoding") d.inner with
  | none => rfl
  | some split =>
    -- Else the declaration has all letters of the word.
    have whole := splitAtWord_eq hw
    refine absurd rfl (absent 0x63 ?_)
    rw [whole, encoding]
    simp

theorem declaredLabel?_front (rest : Bytes) :
    Encoding.declaredLabel? (d.octets ++ rest) = d.encoding.map PseudoAttribute.value := by
  cases h : d.encoding with
  | some p => exact declaredLabel?_append (declaredLabel?_octets h) rest
  | none =>
    unfold Encoding.declaredLabel?
    simp only [after?_octets, splitAtWord_close, splitAtWord_of_plain h, bind, Option.bind_some,
      Option.bind_none, Option.map_none]

theorem sniff_front (rest : Bytes) : Encoding.sniff (d.octets ++ rest) =
    (d.encoding.bind fun p => (Encoding.ofLabel? p.value).map fun e =>
      if e.isUtf16 then .utf8 else e).getD .utf8 := by
  have declared : Encoding.declared? (d.octets ++ rest) = d.encoding.bind fun p =>
      (Encoding.ofLabel? p.value).map fun e => if e.isUtf16 then .utf8 else e := by
    unfold Encoding.declared?
    rw [declaredLabel?_front]
    cases d.encoding with
    | none => rfl
    | some p => cases hl : Encoding.ofLabel? p.value <;> simp [hl]
  rw [← declared]
  unfold octets
  rw [octets_xml]
  rfl

end XmlDeclaration

/-- A declaration tells the encoding of a document, and nothing behind it does: the encoding is the
one that goes by the name that the declaration gives. It is UTF-8 where that one is UTF-16, where
none goes by the name and where the declaration gives no name. -/
theorem declaration_tells_encoding (d : XmlDeclaration) (rest : Bytes) :
    Encoding.sniff (d.octets ++ rest) = Encoding.sniff d.octets ∧
    (d.encoding = none → Encoding.sniff (d.octets ++ rest) = .utf8) ∧
    ∀ p, d.encoding = some p →
      (∀ e : Encoding, e.GoesBy p.value →
        Encoding.sniff (d.octets ++ rest) = if e.isUtf16 then .utf8 else e) ∧
      ((∀ e : Encoding, ¬ e.GoesBy p.value) → Encoding.sniff (d.octets ++ rest) = .utf8) := by
  have alone := d.sniff_front []
  rw [List.append_nil] at alone
  refine ⟨(d.sniff_front rest).trans alone.symm, fun h => ?_,
    fun p h => ⟨fun e he => ?_, fun he => ?_⟩⟩
  · rw [d.sniff_front, h]
    rfl
  all_goals
    have trimmed : Encoding.trimLabel p.value = p.value := Encoding.trimLabel_self fun b hb =>
      XmlDeclaration.not_labelSpace_of_nameOctet
        (XmlDeclaration.nameOctet_of_isEncodingName p.valued b hb)
    rw [← trimmed] at he
    rw [d.sniff_front, h, Option.bind_some]
  · rw [Encoding.ofLabel?_eq_some_iff.mpr he]
    rfl
  · have unknown : Encoding.ofLabel? p.value = none :=
      Option.eq_none_iff_forall_ne_some.mpr fun e hl => he e (Encoding.ofLabel?_eq_some_iff.mp hl)
    rw [unknown]
    rfl

/-- A declaration in single quotes, with space around the `=`, in front of one that is not read. -/
theorem declaration_tells_encoding_of_spaced :
    let name : PseudoAttribute "encoding" XmlDeclaration.isEncodingName := {
      space := [0x0D, 0x0A], before := [0x09], after := [0x20], quote := 0x27,
      value := [0x4C, 0x61, 0x74, 0x69, 0x6E, 0x32] }
    let plain : PseudoAttribute "version" XmlDeclaration.isVersion := { value := [0x31, 0x2E, 0x30] }
    let d : XmlDeclaration := { version := plain, encoding := some name, space := [0x20] }
    let bare : XmlDeclaration := { version := plain }
    (Encoding.iso8859_2.GoesBy name.value ∧
      Encoding.sniff (d.octets ++ Bytes.ofString "<?xml encoding='utf-8'?>") = .iso8859_2) ∧
    Encoding.sniff (bare.octets ++ Bytes.ofString "<osm encoding='latin2'>?>") = .utf8 := by
  intro name plain d bare
  have named : Encoding.iso8859_2.GoesBy name.value := by
    unfold Encoding.GoesBy
    decide +kernel
  exact ⟨⟨named, ((declaration_tells_encoding d _).2.2 name rfl).1 _ named⟩,
    (declaration_tells_encoding bare _).2.1 rfl⟩

end MapTables
