import MapTables.Proofs.Time.Calendar
import MapTables.Proofs.Time.Numerals

/-!
# Texts of timestamps

What a text of a date and a time denotes, part by part. A text is read just if it denotes a point of
time, and then as that.
-/

namespace MapTables.Time

open Decimal

/-! ## What a text denotes -/

/-- A fraction of a second, in nanoseconds. -/
inductive Fraction : List Char → Nat → Prop
  | none : Fraction [] 0
  | digits {ds : List Char} (some_digits : ds ≠ []) (all_digits : ds.all isDigit) :
      Fraction ('.' :: ds) (nanoseconds ds)

/-- Minutes that a clock is ahead of UTC. -/
inductive Offset : List Char → Int → Prop
  | utc {c : Char} (zone : c = 'Z' ∨ c = 'z') : Offset [c] 0
  | ahead {hours minutes : Nat} (hour : hours ≤ 23) (minute : minutes ≤ 59) :
      Offset ('+' :: (padded 2 hours ++ ':' :: padded 2 minutes)) (hours * 60 + minutes : Nat)
  | behind {sign : Char} {hours minutes : Nat} (minus : sign = '-' ∨ sign = '\u2212')
      (hour : hours ≤ 23) (minute : minutes ≤ 59) :
      Offset (sign :: (padded 2 hours ++ ':' :: padded 2 minutes)) (-(hours * 60 + minutes : Nat))

/-- A date with a year of four digits, a time, and how far the clock is ahead of UTC. -/
inductive Denotes : List Char → Moment → Prop
  | written {date : Date} {separator : Char} {hour minute second nanosecond : Nat}
      {fraction zone : List Char} {ahead : Int} (year : 0 ≤ date.year ∧ date.year ≤ 9999)
      (separates : isDateTimeSeparator separator) (hours : hour < 24) (minutes : minute < 60)
      (seconds : second ≤ 60) (parts : Fraction fraction nanosecond) (offset : Offset zone ahead) :
      Denotes (padded 4 date.year.toNat ++ '-' :: (padded 2 date.month ++ '-' :: (padded 2 date.day ++
        separator :: (padded 2 hour ++ ':' :: (padded 2 minute ++ ':' :: (padded 2 second ++
          (fraction ++ zone)))))))
        (.ofLocal date hour minute second nanosecond ahead)

/-! ## Reading the parts -/

variable {cs rest : List Char}

theorem expect_eq_some_iff {p : Char → Bool} :
    expect p cs = some rest ↔ ∃ c, p c ∧ cs = c :: rest := by
  cases cs with
  | nil => simp [expect]
  | cons c cs => by_cases hc : p c <;> simp [expect, hc]

theorem nanoseconds_lt {ds : List Char} (h : ds.all isDigit) : nanoseconds ds < 1000000000 := by
  have kept : (ds.take 9).all isDigit :=
    List.all_eq_true.mpr fun c hc => List.all_eq_true.mp h c (List.mem_of_mem_take hc)
  have few : (ds.take 9).length ≤ 9 := List.length_take_le 9 ds
  calc nanoseconds ds
      < tenTo (ds.take 9).length * tenTo (9 - (ds.take 9).length) :=
        Nat.mul_lt_mul_of_pos_right (foldDigits_lt kept) (tenTo_pos _)
    _ = tenTo ((ds.take 9).length + (9 - (ds.take 9).length)) := (Nat.pow_add 10 _ _).symm
    _ = 1000000000 := by rw [Nat.add_sub_cancel' few]; rfl

theorem Fraction.lt {nanosecond : Nat} (h : Fraction cs nanosecond) : nanosecond < 1000000000 := by
  cases h with
  | none => decide
  | digits _ all => exact nanoseconds_lt all

/-- Hours and minutes at the end of a text, to be counted with a sign. -/
def clock? (sign : Int) (cs : List Char) : Option Int := do
  let (hours, cs) ← fixedDigits 2 cs
  let cs ← expect (· == ':') cs
  let (minutes, cs) ← fixedDigits 2 cs
  if cs = [] ∧ hours ≤ 23 ∧ minutes ≤ 59 then some (sign * (hours * 60 + minutes : Nat)) else none

theorem offset?_cons (c : Char) (cs : List Char) : offset? (c :: cs) =
    if (c = 'Z' ∨ c = 'z') ∧ cs = [] then some 0
    else if c = '+' then clock? 1 cs
    else if c = '-' ∨ c = '\u2212' then clock? (-1) cs
    else none := by
  by_cases hz : (c = 'Z' ∨ c = 'z') ∧ cs = []
  · obtain ⟨rfl | rfl, rfl⟩ := hz <;> rfl
  · rw [if_neg hz]
    unfold offset?
    split
    · next h =>
      cases h
      exact absurd ⟨.inl rfl, rfl⟩ hz
    · next h =>
      cases h
      exact absurd ⟨.inr rfl, rfl⟩ hz
    · next h =>
      cases h
      rfl
    · next h => cases h

theorem clock?_eq_some_iff {sign ahead : Int} : clock? sign cs = some ahead ↔
    ∃ hours minutes : Nat, hours ≤ 23 ∧ minutes ≤ 59 ∧
      cs = padded 2 hours ++ ':' :: padded 2 minutes ∧
      sign * (hours * 60 + minutes : Nat) = ahead := by
  have two : tenTo 2 = 100 := rfl
  unfold clock?
  simp only [Option.bind_eq_bind, Option.bind_eq_some_iff, Prod.exists, expect_eq_some_iff,
    fixedDigits_eq_some_iff (by decide : 0 < 2), Option.ite_none_right_eq_some, Option.some.injEq,
    beq_iff_eq, two]
  constructor
  · rintro ⟨hours, _, ⟨-, rfl⟩, _, ⟨_, rfl, rfl⟩, minutes, _, ⟨-, rfl⟩, ⟨rfl, hh, hm⟩, rfl⟩
    exact ⟨hours, minutes, hh, hm, by rw [List.append_nil], rfl⟩
  · rintro ⟨hours, minutes, hh, hm, rfl, rfl⟩
    exact ⟨hours, _, ⟨by omega, rfl⟩, _, ⟨_, rfl, rfl⟩, minutes, [],
      ⟨by omega, (List.append_nil _).symm⟩, ⟨rfl, hh, hm⟩, rfl⟩

theorem offset?_eq_some_iff {ahead : Int} : offset? cs = some ahead ↔ Offset cs ahead := by
  constructor
  · intro h
    cases cs with
    | nil => cases h
    | cons c cs =>
      rw [offset?_cons] at h
      split at h
      · next hz =>
        cases h
        obtain ⟨hz, rfl⟩ := hz
        exact .utc hz
      · split at h
        · next hp =>
          subst hp
          obtain ⟨hours, minutes, hh, hm, rfl, rfl⟩ := clock?_eq_some_iff.mp h
          rw [Int.one_mul]
          exact .ahead hh hm
        · split at h
          · next minus =>
            obtain ⟨hours, minutes, hh, hm, rfl, rfl⟩ := clock?_eq_some_iff.mp h
            rw [Int.neg_one_mul]
            exact .behind minus hh hm
          · cases h
  · intro h
    cases h with
    | utc zone => rw [offset?_cons, if_pos ⟨zone, rfl⟩]
    | @ahead hours minutes hh hm =>
      rw [offset?_cons, if_neg (by simp), if_pos rfl]
      exact clock?_eq_some_iff.mpr ⟨hours, minutes, hh, hm, rfl, Int.one_mul _⟩
    | @behind sign hours minutes minus hh hm =>
      have signed : ¬ (sign = 'Z' ∨ sign = 'z') ∧ sign ≠ '+' := by
        rcases minus with rfl | rfl <;> decide
      rw [offset?_cons, if_neg fun hz => signed.1 hz.1, if_neg signed.2, if_pos minus]
      exact clock?_eq_some_iff.mpr ⟨hours, minutes, hh, hm, rfl, Int.neg_one_mul _⟩

theorem Offset.bounds {ahead : Int} (h : Offset cs ahead) : -1440 < ahead ∧ ahead < 1440 := by
  cases h <;> omega

theorem Offset.start {ahead : Int} (h : Offset cs ahead) :
    ∃ c rest, cs = c :: rest ∧ isDigit c = false ∧ c ≠ '.' := by
  cases h with
  | utc zone => exact ⟨_, _, rfl, by rcases zone with rfl | rfl <;> decide⟩
  | ahead => exact ⟨_, _, rfl, by decide⟩
  | behind minus => exact ⟨_, _, rfl, by rcases minus with rfl | rfl <;> decide⟩

theorem fraction?_append {fraction zone : List Char} {nanosecond : Nat} {ahead : Int}
    (h : Fraction fraction nanosecond) (offset : Offset zone ahead) :
    fraction? (fraction ++ zone) = some (nanosecond, zone) := by
  obtain ⟨c, rest, rfl, hc, hp⟩ := offset.start
  cases h with
  | none =>
    unfold fraction?
    split
    · next h =>
      cases h
      exact absurd rfl hp
    · rfl
  | @digits ds hne all =>
    have all := List.all_eq_true.mp all
    unfold fraction?
    simp only [List.cons_append, List.takeWhile_append_of_pos all, List.dropWhile_append_of_pos all,
      List.takeWhile_cons_of_neg (ne_true_of_eq_false hc),
      List.dropWhile_cons_of_neg (ne_true_of_eq_false hc), List.append_nil, if_neg hne]

theorem fraction_of_fraction? {nanosecond : Nat} (h : fraction? cs = some (nanosecond, rest)) :
    ∃ fraction, Fraction fraction nanosecond ∧ cs = fraction ++ rest := by
  unfold fraction? at h
  split at h
  · next ds =>
    simp only at h
    split at h
    · cases h
    · next hne =>
      cases h
      refine ⟨_, .digits hne (List.all_takeWhile), ?_⟩
      rw [List.cons_append, List.takeWhile_append_dropWhile]
  · cases h
    exact ⟨[], .none, rfl⟩

/-! ## Reading the whole -/

theorem ofLocal?_eq_some_iff {date : Date} {hour minute second nanosecond : Nat} {ahead : Int}
    {t : Timestamp} (ha : -1440 < ahead ∧ ahead < 1440) (hn : nanosecond < 1000000000) :
    Timestamp.ofLocal? date hour minute second nanosecond ahead = some t ↔
      hour < 24 ∧ minute < 60 ∧ second ≤ 60 ∧
        t.moment = .ofLocal date hour minute second nanosecond ahead := by
  unfold Timestamp.ofLocal?
  by_cases hh : hour < 24 ∧ minute < 60
  · obtain ⟨hm, he⟩ := @toUtc_spec date (hour * 60 + minute) ahead (by omega) ha
    generalize toUtc date (hour * 60 + minute) ahead = utc at hm he ⊢
    obtain ⟨day, m⟩ := utc
    simp only at hm he
    by_cases hs : second ≤ 60
    · have same : Timestamp.moment ⟨day, m, second, nanosecond, hm, hs, hn⟩ =
          .ofLocal date hour minute second nanosecond ahead := by
        simp only [Timestamp.moment, Moment.ofLocal, Moment.mk.injEq, and_true]
        omega
      simp only [hh, hm, hs, hn, and_self, if_true, dite_true, true_and, Option.some.injEq]
      rw [← same]
      exact ⟨fun h => h ▸ rfl, fun h => (Timestamp.moment_inj h).symm⟩
    · simp only [hh, hs, and_self, if_true, false_and, and_false, dite_false, reduceCtorEq]
  · rw [if_neg hh]
    simp only [reduceCtorEq, false_iff]
    exact fun h => hh ⟨h.1, h.2.1⟩

theorem ofNumbers?_eq_some_iff {year : Int} {month day : Nat} {date : Date} :
    Date.ofNumbers? year month day = some date ↔
      date.year = year ∧ date.month = month ∧ date.day = day := by
  unfold Date.ofNumbers?
  split
  · rw [Option.some.injEq]
    constructor
    · rintro rfl
      exact ⟨rfl, rfl, rfl⟩
    · rintro ⟨rfl, rfl, rfl⟩
      rfl
  · next h =>
    simp only [reduceCtorEq, false_iff]
    rintro ⟨rfl, rfl, rfl⟩
    exact h date.exists_day

/-- A text is read as an instant just if it denotes that point of time. -/
theorem ofChars?_eq_some_iff {t : Timestamp} :
    Timestamp.ofChars? cs = some t ↔ Denotes cs t.moment := by
  unfold Timestamp.ofChars?
  simp only [Option.bind_eq_bind, Option.bind_eq_some_iff, Prod.exists, expect_eq_some_iff,
    fixedDigits_eq_some_iff (by decide : 0 < 2), fixedDigits_eq_some_iff (by decide : 0 < 4),
    ofNumbers?_eq_some_iff, offset?_eq_some_iff, beq_iff_eq]
  constructor
  · rintro ⟨year, _, ⟨hy, rfl⟩, _, ⟨_, rfl, rfl⟩, month, _, ⟨-, rfl⟩, _, ⟨_, rfl, rfl⟩, day, _,
      ⟨-, rfl⟩, date, ⟨hyear, rfl, rfl⟩, _, ⟨separator, hs, rfl⟩, hour, _, ⟨-, rfl⟩, _,
      ⟨_, rfl, rfl⟩, minute, _, ⟨-, rfl⟩, _, ⟨_, rfl, rfl⟩, second, rest, ⟨-, rfl⟩, nanosecond,
      zone, hf, ahead, offset, hl⟩
    obtain ⟨fraction, parts, rfl⟩ := fraction_of_fraction? hf
    obtain ⟨hh, hm, hsec, moment⟩ := (ofLocal?_eq_some_iff offset.bounds parts.lt).mp hl
    have four : tenTo 4 = 10000 := rfl
    have same : year = date.year.toNat := by omega
    rw [moment, same]
    exact .written (by omega) hs hh hm hsec parts offset
  · intro h
    generalize moment : t.moment = m at h
    cases h with
    | @written date separator hour minute second nanosecond fraction zone ahead year separates hours
        minutes seconds parts offset =>
      have months := date.month_bounds
      have days := date.exists_day
      have few := daysInMonth_le date.year date.month
      have two : tenTo 2 = 100 := rfl
      have four : tenTo 4 = 10000 := rfl
      refine ⟨date.year.toNat, _, ⟨by omega, rfl⟩, _, ⟨_, rfl, rfl⟩, date.month, _,
        ⟨by omega, rfl⟩, _, ⟨_, rfl, rfl⟩, date.day, _, ⟨by omega, rfl⟩, date,
        ⟨by omega, rfl, rfl⟩, _, ⟨separator, separates, rfl⟩, hour, _, ⟨by omega, rfl⟩, _,
        ⟨_, rfl, rfl⟩, minute, _, ⟨by omega, rfl⟩, _, ⟨_, rfl, rfl⟩, second, _, ⟨by omega, rfl⟩,
        nanosecond, zone, fraction?_append parts offset, ahead, offset, ?_⟩
      exact (ofLocal?_eq_some_iff offset.bounds parts.lt).mpr ⟨hours, minutes, seconds, moment⟩

end MapTables.Time
