import Mathlib.Data.List.Induction
import MapTables.Time.Timestamp

/-!
# Numbers with a fixed count of digits

A number is read back from its digits, and digits are those of the number that they are read as.
-/

namespace MapTables.Time

open Decimal

variable {width n : Nat} {cs rest : List Char}

/-! ## Digits and their values -/

theorem isDigit_iff {c : Char} : isDigit c ↔ 48 ≤ c.toNat ∧ c.toNat ≤ 57 := Char.isDigit_iff_toNat

theorem digitValue_lt {c : Char} (h : isDigit c) : digitValue c < 10 := by
  have := isDigit_iff.mp h
  change c.toNat - 48 < 10
  omega

theorem digitChar_digitValue {c : Char} (h : isDigit c) : Nat.digitChar (digitValue c) = c := by
  have := isDigit_iff.mp h
  refine Char.toNat_inj.mp ?_
  rw [Nat.toNat_digitChar_of_lt_ten (digitValue_lt h)]
  change 48 + (c.toNat - 48) = c.toNat
  omega

theorem foldDigits_concat (cs : List Char) (c : Char) :
    foldDigits 0 (cs ++ [c]) = 10 * foldDigits 0 cs + digitValue c := by
  simp [foldDigits]

theorem foldDigits_lt (h : cs.all isDigit) : foldDigits 0 cs < tenTo cs.length := by
  induction cs using List.reverseRecOn with
  | nil => decide
  | append_singleton cs c ih =>
    rw [List.all_append, Bool.and_eq_true, List.all_cons, List.all_nil, Bool.and_true] at h
    have := ih h.1
    have := digitValue_lt h.2
    rw [foldDigits_concat, List.length_append, List.length_singleton, tenTo_succ]
    omega

/-! ## Padded numbers -/

theorem padded_zero (hw : 0 < width) : padded width 0 = List.replicate width '0' := by
  obtain ⟨k, rfl⟩ := Nat.exists_eq_succ_of_ne_zero (Nat.ne_of_gt hw)
  simp [padded, Nat.toDigits_zero, List.replicate_succ']

theorem padded_succ {last : Nat} (hw : 0 < width) (hl : last < 10) :
    padded (width + 1) (10 * n + last) = padded width n ++ [Nat.digitChar last] := by
  by_cases hn : n = 0
  · subst hn
    rw [padded_zero hw, Nat.mul_zero, Nat.zero_add, padded, Nat.toDigits_of_lt_base hl]
    simp
  · have digits : Nat.toDigits 10 (10 * n + last) = Nat.toDigits 10 n ++ [Nat.digitChar last] := by
      rw [Nat.toDigits_eq_if (by decide), if_neg (by omega), show (10 * n + last) / 10 = n by omega,
        show (10 * n + last) % 10 = last by omega]
    simp only [padded, digits, List.length_append, List.length_singleton, Nat.add_sub_add_right,
      List.append_assoc]

theorem padded_foldDigits (hne : cs ≠ []) (h : cs.all isDigit) :
    padded cs.length (foldDigits 0 cs) = cs := by
  induction cs using List.reverseRecOn with
  | nil => exact absurd rfl hne
  | append_singleton cs c ih =>
    rw [List.all_append, Bool.and_eq_true, List.all_cons, List.all_nil, Bool.and_true] at h
    rw [foldDigits_concat, List.length_append, List.length_singleton]
    by_cases hnil : cs = []
    · subst hnil
      simp only [foldDigits, List.foldl_nil, Nat.mul_zero, Nat.zero_add, List.length_nil, padded,
        Nat.toDigits_of_lt_base (digitValue_lt h.2), digitChar_digitValue h.2]
      rfl
    · rw [padded_succ (List.length_pos_iff.mpr hnil) (digitValue_lt h.2), ih hnil h.1,
        digitChar_digitValue h.2]

theorem length_padded (hw : 0 < width) (hn : n < tenTo width) : (padded width n).length = width := by
  have := (Nat.length_toDigits_le_iff (by decide : 1 < 10) hw).mpr hn
  simp only [padded, List.length_append, List.length_replicate]
  omega

theorem all_isDigit_padded (width n : Nat) : (padded width n).all isDigit := by
  refine List.all_eq_true.mpr fun c hc => ?_
  rcases List.mem_append.mp hc with hc | hc
  · rw [List.eq_of_mem_replicate hc]
    rfl
  · exact Nat.isDigit_of_mem_toDigits (by decide) (by decide) hc

theorem foldDigits_padded (width n : Nat) : foldDigits 0 (padded width n) = n := by
  change Nat.ofDigitChars 10 (padded width n) 0 = n
  rw [padded, Nat.ofDigitChars_append, Nat.ofDigitChars_replicate_zero]
  simp

theorem padded_ne_nil (width n : Nat) : padded width n ≠ [] :=
  List.append_ne_nil_of_right_ne_nil _ Nat.toDigits_ne_nil

theorem fixedDigits_eq_some_iff (hw : 0 < width) : fixedDigits width cs = some (n, rest) ↔
    n < tenTo width ∧ cs = padded width n ++ rest := by
  unfold fixedDigits
  simp only [Option.ite_none_right_eq_some, Option.some.injEq, Prod.mk.injEq]
  constructor
  · rintro ⟨⟨hl, hd⟩, rfl, rfl⟩
    have hne : cs.take width ≠ [] := by
      intro he
      rw [he] at hl
      exact absurd hl (by simp; omega)
    have lt := foldDigits_lt hd
    have digits := padded_foldDigits hne hd
    rw [hl] at lt digits
    exact ⟨lt, by rw [digits, List.take_append_drop]⟩
  · rintro ⟨hn, rfl⟩
    have hl := length_padded hw hn
    have front : (padded width n ++ rest).take width = padded width n := List.take_left' hl
    rw [front, List.drop_left' hl]
    exact ⟨⟨hl, all_isDigit_padded width n⟩, foldDigits_padded width n, rfl⟩

theorem fixedDigits_padded (hw : 0 < width) (hn : n < tenTo width) (rest : List Char) :
    fixedDigits width (padded width n ++ rest) = some (n, rest) :=
  (fixedDigits_eq_some_iff hw).mpr ⟨hn, rfl⟩

end MapTables.Time
