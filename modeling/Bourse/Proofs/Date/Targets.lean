import Bourse.Proofs.Date.Periods
import Bourse.Window

/-!
# Days to look from

Sessions are looked for up to the end of a past quarter, from 1 January on, or from a day some years
or one month back. Which dates lie on that side of such a day is said here by their years, quarters,
months and days alone, without the day itself (`le_quarterTarget_iff`, `fourYearsBack_eq`,
`monthBack_eq`, `SessionTargets.firstOfYear_le_iff`, `SessionTargets.oneYearBack_le_iff`).
-/

namespace Bourse

namespace Date

/-- In a quarter before that of `today`. -/
def BeforeQuarter (today d : Date) : Prop :=
  Period.quarterIndex d < Period.quarterIndex today

/-- In a quarter that lies `k` quarters before that of `today`, or in an earlier one. -/
def QuartersBefore (k : ℕ) (today d : Date) : Prop :=
  Period.quarterIndex d + k ≤ Period.quarterIndex today

/-- Not before 1 January of the year of `today`. -/
def SinceNewYear (today d : Date) : Prop :=
  today.year ≤ d.year

/-- Not before the day twelve months before `today`, which is the last one of a shorter month. -/
def SinceYearBack (today d : Date) : Prop :=
  today.year ≤ d.year ∨ d.year = today.year - 1 ∧ (today.month < d.month ∨
    d.month = today.month ∧ min today.day (daysInMonth d.year d.month) ≤ d.day)

/-- Not after the same day `n` years before `today`. -/
def YearsBefore (n : ℕ) (today d : Date) : Prop :=
  d.year < today.year - n ∨ d.year = today.year - n ∧
    (d.month < today.month ∨ d.month = today.month ∧ d.day ≤ today.day)

/-- Not after the same day one month before `today`. -/
def MonthBefore (today d : Date) : Prop :=
  Period.monthIndex d + 1 < Period.monthIndex today ∨
    Period.monthIndex d + 1 = Period.monthIndex today ∧ d.day ≤ today.day

instance (today d : Date) : Decidable (BeforeQuarter today d) :=
  inferInstanceAs (Decidable (_ < _))

instance (k : ℕ) (today d : Date) : Decidable (QuartersBefore k today d) :=
  inferInstanceAs (Decidable (_ ≤ _))

instance (today d : Date) : Decidable (SinceNewYear today d) :=
  inferInstanceAs (Decidable (_ ≤ _))

instance (today d : Date) : Decidable (SinceYearBack today d) :=
  inferInstanceAs (Decidable (_ ∨ _))

instance (n : ℕ) (today d : Date) : Decidable (YearsBefore n today d) :=
  inferInstanceAs (Decidable (_ ∨ _))

instance (today d : Date) : Decidable (MonthBefore today d) :=
  inferInstanceAs (Decidable (_ ∨ _))

theorem SinceNewYear.sinceYearBack {today d : Date} (h : today.SinceNewYear d) :
    today.SinceYearBack d :=
  .inl h

end Date

variable {today : Date}

section Quarters

variable {k : UInt32} (hk : k ≠ 0) (hle : k.toNat ≤ 4 * today.year)

include hk hle

theorem closes_quarterTarget :
    Period.quarter.Closes today k (Period.quarter.endBefore today k) := by
  have hearlier : Period.quarter.index .first < 0 := by decide
  have htoday' : Period.quarter.index today = today.year * 4 + ((today.month - 1) / 3 : ℕ) := rfl
  obtain ⟨first, hstarts, hindex⟩ := @Period.exists_starts .quarter .first today
    (Period.quarter.index today - k.toNat) (by omega) (by omega)
  exact Period.closes_of_starts hk ⟨first, hstarts, by omega⟩

theorem quarterTarget_year (htoday : today.year ≤ 9999) :
    0 ≤ (Period.quarter.endBefore today k).year ∧
      (Period.quarter.endBefore today k).year ≤ 9999 := by
  have hindex := (closes_quarterTarget hk hle).index_eq
  have hm := Date.month_bounds today
  have hm' := Date.month_bounds (Period.quarter.endBefore today k)
  simp only [Period.index, Period.quarterIndex_eq] at hindex
  omega

theorem le_quarterTarget_iff (d : Date) :
    d ≤ Period.quarter.endBefore today k ↔ today.QuartersBefore k.toNat d := by
  have hcloses := closes_quarterTarget hk hle
  have hindex := hcloses.index_eq
  rw [hcloses.ends.le_iff, Date.QuartersBefore]
  simp only [Period.index] at hindex ⊢
  omega

end Quarters

theorem fourYearsBack_eq (h : 4 ≤ today.year ∧ today.year ≤ 9999) :
    ∃ e, today.subMonths? 48 = some e ∧ (0 ≤ e.year ∧ e.year ≤ 9999) ∧
      ∀ d, d ≤ e ↔ today.YearsBefore 4 d := by
  obtain ⟨e, he, hyear, hmonth, hday⟩ := Date.subMonths?_years today 4 (by omega)
  refine ⟨e, he, by omega, fun d => ?_⟩
  have hle := d.day_le
  have hsame : d.year = today.year - (4 : ℕ) → d.month = today.month →
      e.day = min today.day (daysInMonth d.year d.month) := by
    intro h h'
    rw [hday, h, h']
  rw [← not_lt, Date.lt_iff, Date.Precedes, Date.YearsBefore]
  omega

theorem dayBack_eq (h : 1 ≤ today.year ∧ today.year ≤ 9999) :
    ∃ e, today.addDays? (-1) = some e ∧ (0 ≤ e.year ∧ e.year ≤ 9999) ∧ ∀ d, d ≤ e ↔ d < today := by
  obtain ⟨e, he, hserial, hyear⟩ :=
    Date.exists_daysBack (d := today) (by omega) (by omega : 1 ≤ 365)
  refine ⟨e, he, by omega, fun d => ?_⟩
  change d.serial ≤ e.serial ↔ d.serial < today.serial
  omega

theorem monthBack_eq (h : 1 ≤ today.year ∧ today.year ≤ 9999) :
    ∃ e, today.subMonths? 1 = some e ∧ (0 ≤ e.year ∧ e.year ≤ 9999) ∧
      ∀ d, d ≤ e ↔ today.MonthBefore d := by
  have hmonth := Date.month_bounds today
  have hindex : ∀ d : Date, Period.monthIndex d = d.year * 12 + (d.month - 1 : ℕ) := fun _ => rfl
  obtain ⟨e, he, hsum, hday⟩ := today.subMonths?_eq 1 (by rw [hindex]; omega)
  have hmonth' := Date.month_bounds e
  rw [hindex, hindex] at hsum
  refine ⟨e, he, by omega, fun d => ?_⟩
  have hmonth'' := Date.month_bounds d
  have hle := d.day_le
  have hsame : d.year = e.year → d.month = e.month →
      e.day = min today.day (daysInMonth d.year d.month) := by
    intro h h'
    rw [hday, h, h']
  rw [← not_lt, Date.lt_iff, Date.Precedes, Date.MonthBefore, hindex, hindex]
  omega

namespace SessionTargets

theorem firstOfYear_year : (sessionTargets today).firstOfYear.year = today.year := by
  obtain ⟨e, he, hyear, -⟩ := Date.newYear_eq today
  rw [sessionTargets, he, Option.getD_some, hyear]

theorem firstOfYear_le_iff (d : Date) :
    (sessionTargets today).firstOfYear ≤ d ↔ today.SinceNewYear d := by
  obtain ⟨e, he, -⟩ := Date.newYear_eq today
  rw [sessionTargets, he, Option.getD_some, Date.newYear_le_iff he, Date.SinceNewYear]

variable (h : 1 ≤ today.year ∧ today.year ≤ 9999)

include h

theorem lastQuarterEnd_year : 0 ≤ (sessionTargets today).lastQuarterEnd.year ∧
    (sessionTargets today).lastQuarterEnd.year ≤ 9999 :=
  quarterTarget_year (by decide) (by rw [UInt32.toNat_one]; omega) h.2

theorem le_lastQuarterEnd_iff (d : Date) :
    d ≤ (sessionTargets today).lastQuarterEnd ↔ today.BeforeQuarter d := by
  rw [sessionTargets, le_quarterTarget_iff (by decide) (by rw [UInt32.toNat_one]; omega),
    UInt32.toNat_one, Date.QuartersBefore, Date.BeforeQuarter]
  omega

theorem oneYearBack_year : (sessionTargets today).oneYearBack.year = today.year - 1 := by
  obtain ⟨e, he, hyear, -⟩ := Date.subMonths?_years today 1 (by omega)
  rw [sessionTargets, he, Option.getD_some, hyear]
  rfl

theorem oneYearBack_le_iff (d : Date) :
    (sessionTargets today).oneYearBack ≤ d ↔ today.SinceYearBack d := by
  obtain ⟨e, he, hyear, hmonth, hday⟩ := Date.subMonths?_years today 1 (by omega)
  have hback : (sessionTargets today).oneYearBack = e := by
    rw [sessionTargets, he, Option.getD_some]
  rw [Nat.cast_one] at hyear hday
  have hsame : d.year = today.year - 1 → d.month = today.month →
      e.day = min today.day (daysInMonth d.year d.month) := by
    intro h h'
    rw [hday, h, h']
  rw [hback, ← not_lt, Date.lt_iff, Date.Precedes, Date.SinceYearBack]
  omega

end SessionTargets

end Bourse
