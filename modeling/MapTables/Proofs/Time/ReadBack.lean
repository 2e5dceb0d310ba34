import MapTables.Assembly.Reading
import MapTables.Proofs.Fallible
import MapTables.Proofs.Time.Written
import MapTables.Store.Sqlite.Cell

/-!
# Timestamps that are read back

Different instants are kept as different texts. A text that is kept is read again, as the same
instant, just if the year in UTC has four digits.
-/

namespace MapTables

namespace Time

open Decimal

variable {c c' : Char} {rest rest' : List Char} {width n n' : Nat} {t t' : Timestamp}

/-! ## Numbers at the front of a text -/

theorem padded_append_inj (hc : isDigit c = false) (hc' : isDigit c' = false)
    (h : padded width n ++ c :: rest = padded width n' ++ c' :: rest') :
    n = n' ∧ c :: rest = c' :: rest' := by
  have digits := fun k => List.all_eq_true.mp (all_isDigit_padded width k)
  have same : padded width n = padded width n' := by
    have h := congrArg (List.takeWhile isDigit) h
    rwa [List.takeWhile_append_of_pos (digits n), List.takeWhile_append_of_pos (digits n'),
      List.takeWhile_cons_of_neg (ne_true_of_eq_false hc),
      List.takeWhile_cons_of_neg (ne_true_of_eq_false hc'), List.append_nil, List.append_nil] at h
  rw [same] at h
  refine ⟨?_, List.append_cancel_left h⟩
  rw [← foldDigits_padded width n, same, foldDigits_padded]

def yearSign (year : Int) : List Char :=
  if year < 0 then ['-'] else if 9999 < year then ['+'] else []

theorem yearChars_eq (year : Int) : yearChars year = yearSign year ++ padded 4 year.natAbs := by
  unfold yearChars yearSign
  split
  · rw [show (-year).toNat = year.natAbs by omega]
    rfl
  · rw [show year.toNat = year.natAbs by omega]
    split <;> rfl

theorem yearSign_ne_nil {year : Int} (h : ¬ (0 ≤ year ∧ year ≤ 9999)) : yearSign year ≠ [] := by
  unfold yearSign
  split
  · exact List.cons_ne_nil _ _
  · rw [if_pos (by omega)]
    exact List.cons_ne_nil _ _

theorem yearSign_eq_minus_iff {year : Int} : yearSign year = ['-'] ↔ year < 0 := by
  unfold yearSign
  split
  · next h => exact ⟨fun _ => h, fun _ => rfl⟩
  · next h => split <;> simp [h]

theorem not_isDigit_yearSign {year : Int} (h : c ∈ yearSign year) : isDigit c = false := by
  unfold yearSign at h
  split at h
  · rw [List.mem_singleton.mp h]
    rfl
  · split at h
    · rw [List.mem_singleton.mp h]
      rfl
    · cases h

theorem exists_padded_eq_cons (width n : Nat) : ∃ d ds, padded width n = d :: ds ∧ isDigit d := by
  obtain ⟨d, ds, h⟩ := List.exists_cons_of_ne_nil (padded_ne_nil width n)
  have digits := all_isDigit_padded width n
  rw [h, List.all_cons, Bool.and_eq_true] at digits
  exact ⟨d, ds, h, digits.1⟩

theorem yearChars_append_inj {year year' : Int} (hc : isDigit c = false)
    (h : yearChars year ++ c :: rest = yearChars year' ++ c :: rest') :
    year = year' ∧ rest = rest' := by
  rw [yearChars_eq, yearChars_eq, List.append_assoc, List.append_assoc] at h
  -- Behind the sign both texts go on with a digit.
  have numbers : padded 4 year.natAbs ++ c :: rest = padded 4 year'.natAbs ++ c :: rest' := by
    have signs := fun (y : Int) a (ha : a ∈ yearSign y) =>
      show (!isDigit a) = true by rw [not_isDigit_yearSign ha]; rfl
    have h := congrArg (List.dropWhile fun a => !isDigit a) h
    rw [List.dropWhile_append_of_pos (signs year), List.dropWhile_append_of_pos (signs year')] at h
    obtain ⟨d, ds, hd, digit⟩ := exists_padded_eq_cons 4 year.natAbs
    obtain ⟨d', ds', hd', digit'⟩ := exists_padded_eq_cons 4 year'.natAbs
    rw [hd, hd', List.cons_append, List.cons_append] at h ⊢
    rwa [List.dropWhile_cons_of_neg (by simp [digit]),
      List.dropWhile_cons_of_neg (by simp [digit'])] at h
  obtain ⟨size, tail⟩ := padded_append_inj hc hc numbers
  rw [numbers] at h
  have sign : year < 0 ↔ year' < 0 := by
    rw [← yearSign_eq_minus_iff, List.append_cancel_right h, yearSign_eq_minus_iff]
  exact ⟨by omega, List.tail_eq_of_cons_eq tail⟩

/-! ## Fractions -/

theorem nanoseconds_padded (hw : 0 < width) (hw' : width ≤ 9) (hn : n < tenTo width) :
    nanoseconds (padded width n) = n * tenTo (9 - width) := by
  have length := length_padded hw hn
  unfold nanoseconds
  simp only [List.take_of_length_le (show (padded width n).length ≤ 9 by omega),
    foldDigits_padded, length]

theorem fraction_fractionChars (hn : n < 1000000000) : Fraction (fractionChars n) n := by
  have digits {width k : Nat} (hw : 0 < width) (hw' : width ≤ 9) (hk : k < tenTo width)
      (value : k * tenTo (9 - width) = n) : Fraction ('.' :: padded width k) n := by
    rw [← value, ← nanoseconds_padded hw hw' hk]
    exact .digits (padded_ne_nil width k) (all_isDigit_padded width k)
  unfold fractionChars
  split
  · next h =>
    rw [h]
    exact .none
  · split
    · next h =>
      exact digits (by decide) (by decide) (Nat.div_lt_of_lt_mul hn)
        (Nat.div_mul_cancel (Nat.dvd_of_mod_eq_zero h))
    · split
      · next h =>
        exact digits (by decide) (by decide) (Nat.div_lt_of_lt_mul hn)
          (Nat.div_mul_cancel (Nat.dvd_of_mod_eq_zero h))
      · exact digits (by decide) (by decide) hn (Nat.mul_one n)

/-! ## Texts of instants -/

/-- While the year in UTC has four digits, the text of an instant denotes it. -/
theorem denotes_toChars (year : 0 ≤ t.date.year ∧ t.date.year ≤ 9999) :
    Denotes t.toChars t.moment := by
  have hm := t.minute_lt
  have digits : yearChars t.date.year = padded 4 t.date.year.toNat := by
    unfold yearChars
    rw [if_neg (by omega), if_neg (by omega)]
  have moment : t.moment = .ofLocal t.date (t.minute / 60) (t.minute % 60) t.second t.nanosecond 0 := by
    simp only [Timestamp.moment, Moment.ofLocal, Moment.mk.injEq, and_true]
    omega
  rw [moment]
  simp only [Timestamp.toChars, Date.toChars, digits, List.append_assoc, List.cons_append]
  exact .written year rfl (by omega) (by omega) t.second_le
    (fraction_fractionChars t.nanosecond_lt) (.utc (.inl rfl))

theorem Denotes.start {cs : List Char} {m : Moment} (h : Denotes cs m) :
    ∃ d ds, cs = d :: ds ∧ isDigit d := by
  cases h with
  | @written date =>
    obtain ⟨d, ds, hd, digit⟩ := exists_padded_eq_cons 4 date.year.toNat
    rw [hd]
    exact ⟨d, _, rfl, digit⟩

/-- The text of an instant is read, as that instant, just if the year in UTC has four digits. -/
theorem ofChars?_toChars (t : Timestamp) : Timestamp.ofChars? t.toChars =
    if 0 ≤ t.date.year ∧ t.date.year ≤ 9999 then some t else none := by
  split
  · next year => exact ofChars?_eq_some_iff.mpr (denotes_toChars year)
  · next year =>
    refine Option.eq_none_iff_forall_ne_some.mpr fun u h => ?_
    obtain ⟨d, ds, hd, digit⟩ := (ofChars?_eq_some_iff.mp h).start
    obtain ⟨sign, signs, hs⟩ := List.exists_cons_of_ne_nil (yearSign_ne_nil year)
    -- The sign of the year comes first, where a digit would have to be.
    unfold Timestamp.toChars Date.toChars at hd
    rw [yearChars_eq, hs] at hd
    have first : sign = d := List.head_eq_of_cons_eq hd
    rw [← first, not_isDigit_yearSign (hs ▸ List.mem_cons_self)] at digit
    cases digit

theorem toChars_inj (h : t.toChars = t'.toChars) : t = t' := by
  simp only [Timestamp.toChars, Date.toChars, List.append_assoc, List.cons_append] at h
  obtain ⟨year, h⟩ := yearChars_append_inj rfl h
  obtain ⟨month, h⟩ := padded_append_inj rfl rfl h
  obtain ⟨day, h⟩ := padded_append_inj rfl rfl (List.tail_eq_of_cons_eq h)
  obtain ⟨hour, h⟩ := padded_append_inj rfl rfl (List.tail_eq_of_cons_eq h)
  obtain ⟨minute, h⟩ := padded_append_inj rfl rfl (List.tail_eq_of_cons_eq h)
  -- What follows the seconds depends on the fraction, but there are two digits of them.
  have seconds {u : Timestamp} : u.second < tenTo 2 := Nat.lt_of_le_of_lt u.second_le (by decide)
  have h := congrArg (fixedDigits 2) (List.tail_eq_of_cons_eq h)
  rw [fixedDigits_padded (by decide) seconds, fixedDigits_padded (by decide) seconds] at h
  obtain ⟨second, h⟩ := Prod.mk.inj (Option.some.inj h)
  have h := congrArg fraction? h
  rw [fraction?_append (fraction_fractionChars t.nanosecond_lt) (.utc (.inl rfl)),
    fraction?_append (fraction_fractionChars t'.nanosecond_lt) (.utc (.inl rfl))] at h
  obtain ⟨nanosecond, -⟩ := Prod.mk.inj (Option.some.inj h)
  have minutes : t.minute = t'.minute := by omega
  refine Timestamp.moment_inj ?_
  unfold Timestamp.moment Date.dayNumber
  rw [year, month, day, minutes, second, nanosecond]

theorem toText_inj : t.toText = t'.toText ↔ t = t' :=
  ⟨fun h => toChars_inj (String.ofList_injective h), fun h => h ▸ rfl⟩

theorem not_isBlank_of_isDigit (h : isDigit c) : Text.isBlank c = false := by
  have := isDigit_iff.mp h
  simp only [Text.isBlank, Bool.or_eq_false_iff, Bool.and_eq_false_iff, decide_eq_false_iff_not,
    beq_eq_false_iff_ne]
  omega

theorem exists_yearChars_eq_cons (year : Int) :
    ∃ a as, yearChars year = a :: as ∧ Text.isBlank a = false := by
  unfold yearChars
  split
  · exact ⟨_, _, rfl, by decide⟩
  · split
    · exact ⟨_, _, rfl, by decide⟩
    · obtain ⟨d, ds, hd, digit⟩ := exists_padded_eq_cons 4 year.toNat
      exact ⟨d, ds, hd, not_isBlank_of_isDigit digit⟩

theorem trim_toText (t : Timestamp) : Text.trim t.toText = t.toText := by
  obtain ⟨a, as, ha, blank⟩ := exists_yearChars_eq_cons t.date.year
  have ends : ∃ cs, t.toChars = a :: (cs ++ ['Z']) := by
    unfold Timestamp.toChars Date.toChars
    rw [ha]
    simp only [← List.cons_append, ← List.append_assoc]
    exact ⟨_, rfl⟩
  obtain ⟨cs, hcs⟩ := ends
  unfold Text.trim Timestamp.toText
  rw [String.toList_ofList, hcs, Text.trimChars_of_ends _ _ _ _ blank (by decide)]

end Time

namespace Reading

/-! ## Timestamps of attributes -/

variable {α : Type} {read : String → Option α} {e : Element} {a : Attributes} {name : String}
  {c : Context}

theorem optionalValue_eq_some_iff {x : α} : optionalValue read e a name c = .ok (some x) ↔
    ∃ raw, a.get? name = some raw ∧ read (Text.trim raw) = some x := by
  unfold optionalValue value
  cases a.get? name with
  | none => simp
  | some raw => cases hr : read (Text.trim raw) <;> simp [hr, Except.map]

theorem timestamp_of_edit {edit : Edit} (h : Reading.edit e a c = .ok edit) :
    optionalValue Time.Timestamp.ofText? e a "timestamp" c = .ok edit.timestamp := by
  unfold Reading.edit at h
  simp only [bind_eq_ok] at h
  obtain ⟨uid, -, visible, -, version, -, changeset, -, timestamp, ht, h⟩ := h
  cases h
  exact ht

theorem optionalValue_toText (t : Time.Timestamp) (h : a.get? name = some t.toText) :
    optionalValue Time.Timestamp.ofText? e a name c =
      if 0 ≤ t.date.year ∧ t.date.year ≤ 9999 then .ok (some t)
      else .error (.invalidAttribute e name t.toText c) := by
  have read : Time.Timestamp.ofText? t.toText =
      if 0 ≤ t.date.year ∧ t.date.year ≤ 9999 then some t else none := by
    rw [← Time.ofChars?_toChars]
    unfold Time.Timestamp.ofText? Time.Timestamp.toText
    rw [String.toList_ofList]
  unfold optionalValue value
  rw [h]
  simp only [Time.trim_toText, read]
  by_cases year : 0 ≤ t.date.year ∧ t.date.year ≤ 9999
  · simp only [year, and_self, if_true, Except.map]
  · simp only [year, if_false, Except.map]

end Reading

/-- A timestamp that is read is the point of time that its text denotes, and is kept as a text that
is read again, as the same instant, if the year in UTC has four digits; otherwise that text is
refused. Only the same point of time is kept as the same text. -/
theorem kept_timestamp_reads_back {e : Element} {a : Attributes} {c : Context} {t : Time.Timestamp}
    (h : Reading.optionalValue Time.Timestamp.ofText? e a "timestamp" c = .ok (some t)) :
    (∃ raw, a.get? "timestamp" = some raw ∧ Time.Denotes (Text.trim raw).toList t.moment) ∧
    (∀ edit, Reading.edit e a c = .ok edit →
      (Sqlite.editCells edit).getLast? = some (.text t.toText)) ∧
    (∀ (e' : Element) (a' : Attributes) (c' : Context), a'.get? "timestamp" = some t.toText →
      Reading.optionalValue Time.Timestamp.ofText? e' a' "timestamp" c' =
        if 0 ≤ t.date.year ∧ t.date.year ≤ 9999 then .ok (some t)
        else .error (.invalidAttribute e' "timestamp" t.toText c')) ∧
    ∀ t' : Time.Timestamp, t.toText = t'.toText ↔ t.moment = t'.moment := by
  refine ⟨?_, fun edit he => ?_, fun _ _ _ ha => Reading.optionalValue_toText t ha, fun t' => ?_⟩
  · obtain ⟨raw, hr, ht⟩ := Reading.optionalValue_eq_some_iff.mp h
    exact ⟨raw, hr, Time.ofChars?_eq_some_iff.mp ht⟩
  · have kept : edit.timestamp = some t := by
      rw [Reading.timestamp_of_edit he] at h
      exact Except.ok.inj h
    unfold Sqlite.editCells
    rw [kept]
    rfl
  · rw [Time.toText_inj]
    exact ⟨fun same => same ▸ rfl, Time.Timestamp.moment_inj⟩

/-- A leap second whose offset leads into the next year, told with more digits than are kept, and the
same point of time as another clock shows it. -/
theorem kept_timestamp_reads_back_of_leap_second :
    let a : Attributes := [("user", "u"), ("timestamp", "\t2016-12-31 23:59:60.12345678999-00:30 ")]
    let b : Attributes := [("timestamp", "2017-01-01t00:59:60.123456789+00:30")]
    let kept : Attributes := [("timestamp", "2017-01-01T00:29:60.123456789Z")]
    ∃ t edit,
      Reading.optionalValue Time.Timestamp.ofText? .way a "timestamp" none = .ok (some t) ∧
      Time.Denotes "2016-12-31 23:59:60.12345678999-00:30".toList t.moment ∧
      Reading.edit .way a none = .ok edit ∧
      (Sqlite.editCells edit).getLast? = some (.text "2017-01-01T00:29:60.123456789Z") ∧
      Reading.optionalValue Time.Timestamp.ofText? .node kept "timestamp" none = .ok (some t) ∧
      ∃ t', Reading.optionalValue Time.Timestamp.ofText? .node b "timestamp" none = .ok (some t') ∧
        t.toText = t'.toText ∧ t.moment = t'.moment := by
  intro a b kept
  let t : Time.Timestamp := ⟨⟨2017, 1, 1, by decide⟩, 29, 60, 123456789, by decide, by decide, by decide⟩
  have text : t.toText = "2017-01-01T00:29:60.123456789Z" := by decide +kernel
  have read : Reading.optionalValue Time.Timestamp.ofText? .way a "timestamp" none = .ok (some t) :=
    Reading.optionalValue_eq_some_iff.mpr ⟨_, rfl, by decide +kernel⟩
  have read' : Reading.optionalValue Time.Timestamp.ofText? .node b "timestamp" none = .ok (some t) :=
    Reading.optionalValue_eq_some_iff.mpr ⟨_, rfl, by decide +kernel⟩
  have edited : Reading.edit .way a none = .ok { user := some "u", timestamp := some t } := by
    unfold Reading.edit
    rw [read]
    rfl
  obtain ⟨⟨raw, hr, denotes⟩, cell, back, same⟩ := kept_timestamp_reads_back read
  have trimmed : (Text.trim raw).toList = "2016-12-31 23:59:60.12345678999-00:30".toList := by
    rw [← Option.some.inj hr]
    decide +kernel
  rw [trimmed] at denotes
  refine ⟨t, _, read, denotes, edited, ?_, ?_, t, read', rfl, (same t).mp rfl⟩
  · rw [← text]
    exact cell _ edited
  · rw [back .node kept none (by rw [text]; rfl)]
    rfl

/-- The last second of the year 9999 on a clock behind UTC is kept as a text with a year of five
digits, and such a text is refused. -/
theorem kept_timestamp_is_refused :
    let a : Attributes := [("timestamp", "9999-12-31T23:59:59-01:00")]
    let kept : Attributes := [("timestamp", "+10000-01-01T00:59:59Z")]
    ∃ t, Reading.optionalValue Time.Timestamp.ofText? .way a "timestamp" none = .ok (some t) ∧
      t.toText = "+10000-01-01T00:59:59Z" ∧
      ¬ ∃ t', Reading.optionalValue Time.Timestamp.ofText? .way kept "timestamp" none =
        .ok (some t') := by
  intro a kept
  let t : Time.Timestamp := ⟨⟨10000, 1, 1, by decide⟩, 59, 59, 0, by decide, by decide, by decide⟩
  refine ⟨t, Reading.optionalValue_eq_some_iff.mpr ⟨_, rfl, by decide +kernel⟩, by decide +kernel, ?_⟩
  rintro ⟨t', h⟩
  obtain ⟨raw, hr, ht⟩ := Reading.optionalValue_eq_some_iff.mp h
  have refused : Time.Timestamp.ofText? (Text.trim "+10000-01-01T00:59:59Z") = none := by
    decide +kernel
  rw [← Option.some.inj hr, refused] at ht
  cases ht

end MapTables
