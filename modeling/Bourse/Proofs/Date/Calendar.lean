import Bourse.Period
import Bourse.Proofs.Date.Order

/-!
# Steps through the calendar

A date is found again from its serial number (`ofSerial?_serial`), so a step of days goes where the
serial numbers say (`addDays?_eq`), and every number between those of the first and the last date is
one (`exists_serial`). The first day of a year (`newYear_le_iff`) and the same day some months
before (`subMonths?_eq`) follow from that.
-/

namespace Bourse

namespace Date

theorem yearOfSerial_eq {n year : ℤ} (hle : daysBeforeYear year ≤ n)
    (hlt : n < daysBeforeYear (year + 1)) : yearOfSerial n = year := by
  have hguess : year - 1 ≤ n * 400 / 146097 + 1 ∧ n * 400 / 146097 + 1 ≤ year + 1 := by
    unfold daysBeforeYear at hle hlt
    omega
  simp only [yearOfSerial]
  generalize n * 400 / 146097 + 1 = guess at hguess
  have hmono := @daysBeforeYear_mono
  rcases (by omega : guess = year - 1 ∨ guess = year ∨ guess = year + 1) with rfl | rfl | rfl
  · rw [if_neg (not_lt.2 ((hmono (by omega)).trans hle)), sub_add_cancel, if_pos hle]
  · rw [if_neg (not_lt.2 hle), if_neg (not_le.2 hlt)]
  · rw [if_pos hlt, add_sub_cancel_right]

theorem monthOfRest_eq {year : ℤ} {rest target : ℕ}
    (hle : daysThroughMonth year (target - 1) ≤ rest)
    (hlt : rest < daysThroughMonth year target) : ∀ {fuel month : ℕ}, month ≤ target →
      target ≤ month + fuel → monthOfRest year rest fuel month = target
  | 0, month, hm, ht => le_antisymm hm ht
  | fuel + 1, month, hm, ht => by
    rw [monthOfRest]
    split_ifs with h
    · by_contra hne
      have hpred : month ≤ target - 1 := by omega
      exact absurd (h.trans_le ((daysThroughMonth_mono year hpred).trans hle)) (lt_irrefl _)
    · refine monthOfRest_eq hle hlt ?_ (by omega)
      by_contra hne
      obtain rfl : month = target := by omega
      exact h hlt

theorem ofSerial?_serial (d : Date) : ofSerial? d.serial = some d := by
  have hmonth := month_bounds d
  have hday := d.day_pos
  have hpred := daysThroughMonth_pred d
  have hyear := yearOfSerial_eq (daysBeforeYear_le_serial d) (serial_lt_daysBeforeYear d)
  have hrest : (d.serial - daysBeforeYear d.year).toNat
      = daysThroughMonth d.year (d.month - 1) + (d.day - 1) := by
    unfold serial
    omega
  have hmonth' : monthOfRest d.year (daysThroughMonth d.year (d.month - 1) + (d.day - 1)) 11 1
      = d.month := monthOfRest_eq (by omega) (by omega) hmonth.1 (by omega)
  have hback : daysThroughMonth d.year (d.month - 1) + (d.day - 1)
      - daysThroughMonth d.year (d.month - 1) + 1 = d.day := by
    omega
  simp only [ofSerial?, hyear, hrest, hmonth', hback, of?_self]

theorem addDays?_eq {d e : Date} {n : ℤ} (h : e.serial = d.serial + n) :
    d.addDays? n = some e := by
  rw [addDays?, ← h, ofSerial?_serial]

theorem yearOfSerial_bounds (n : ℤ) :
    daysBeforeYear (yearOfSerial n) ≤ n ∧ n < daysBeforeYear (yearOfSerial n + 1) := by
  have hguess : (n * 400 / 146097 + 1 - 1) * 146097 ≤ n * 400 ∧
      n * 400 < (n * 400 / 146097 + 1) * 146097 := by
    omega
  simp only [yearOfSerial]
  generalize n * 400 / 146097 + 1 = guess at hguess
  split_ifs <;> unfold daysBeforeYear at * <;> omega

/-- The days of a year are those of its months. -/
theorem exists_month (year : ℤ) {rest : ℕ} : ∀ {months : ℕ}, rest < daysThroughMonth year months →
    ∃ m < months, daysThroughMonth year m ≤ rest ∧ rest < daysThroughMonth year (m + 1)
  | 0, h => absurd h (Nat.not_lt_zero rest)
  | months + 1, h => by
    by_cases hlt : rest < daysThroughMonth year months
    · obtain ⟨m, hm, hle, hlt⟩ := exists_month year hlt
      exact ⟨m, by omega, hle, hlt⟩
    · exact ⟨months, by omega, by omega, h⟩

/-- Every number between those of the first and the last date is the serial number of one. -/
theorem exists_serial {n : ℤ} (hlo : daysBeforeYear (-262143) ≤ n)
    (hhi : n < daysBeforeYear 262143) : ∃ d : Date, d.serial = n := by
  obtain ⟨hle, hlt⟩ := yearOfSerial_bounds n
  generalize yearOfSerial n = year at hle hlt
  have hge : -262143 ≤ year := by
    by_contra hyear
    exact absurd (hlo.trans_lt hlt) (not_lt.2 (daysBeforeYear_mono (by omega)))
  have hyear : year ≤ 262142 := by
    by_contra hyear
    exact absurd (hle.trans_lt hhi) (not_lt.2 (daysBeforeYear_mono (by omega)))
  have hrest : (n - daysBeforeYear year).toNat < daysThroughMonth year 12 := by
    have htwelve := daysThroughMonth_twelve year
    rw [daysBeforeYear_succ, ← htwelve] at hlt
    omega
  obtain ⟨m, -, hm, hm'⟩ := exists_month year hrest
  rw [daysThroughMonth] at hm'
  refine ⟨⟨year, m + 1, (n - daysBeforeYear year).toNat - daysThroughMonth year m + 1, hge, hyear,
    by omega, by omega⟩, ?_⟩
  simp only [serial, Nat.add_sub_cancel]
  omega

theorem exists_addDays {d : Date} {n : ℤ} (hlo : daysBeforeYear (-262143) ≤ d.serial + n)
    (hhi : d.serial + n < daysBeforeYear 262143) :
    ∃ e, d.addDays? n = some e ∧ e.serial = d.serial + n := by
  obtain ⟨e, he⟩ := exists_serial hlo hhi
  exact ⟨e, addDays?_eq he, he⟩

theorem year_mono {d e : Date} (h : d ≤ e) : d.year ≤ e.year := by
  by_contra hlt
  exact absurd (lt_iff.2 (.inl (not_le.1 hlt))) (not_lt.2 h)

/-- Some days before a date, at most a year of them, its year is the same or the one before. -/
theorem exists_daysBack {d : Date} (hd : -262143 < d.year) {n : ℕ} (hn : n ≤ 365) :
    ∃ e, d.addDays? (-n) = some e ∧ e.serial = d.serial - n ∧
      d.year - 1 ≤ e.year ∧ e.year ≤ d.year := by
  have hprev := daysBeforeYear_succ (d.year - 1)
  rw [sub_add_cancel] at hprev
  have hle := daysBeforeYear_le_serial d
  have hback : daysBeforeYear (d.year - 1) ≤ d.serial + -n := by
    split_ifs at hprev <;> omega
  obtain ⟨e, he, hserial⟩ := exists_addDays
    ((daysBeforeYear_mono (by omega : -262143 ≤ d.year - 1)).trans hback) <| by
      have hlt := serial_lt_daysBeforeYear d
      have hmono := daysBeforeYear_mono (by have := d.year_le; omega : d.year + 1 ≤ 262143)
      omega
  refine ⟨e, he, by omega, ?_, year_mono (show e.serial ≤ d.serial by omega)⟩
  by_contra hyear
  have hmono := daysBeforeYear_mono (by omega : e.year + 1 ≤ d.year - 1)
  have hlt := serial_lt_daysBeforeYear e
  omega

theorem exists_of? (year : ℤ) (month : ℕ) {day : ℕ} (hyear : -262143 ≤ year ∧ year ≤ 262142)
    (hday : 1 ≤ day ∧ day ≤ daysInMonth year month) :
    ∃ d, of? year month day = some d ∧ d.year = year ∧ d.month = month ∧ d.day = day :=
  ⟨_, dif_pos ⟨hyear, hday⟩, rfl, rfl, rfl⟩

theorem newYear_eq (d : Date) : ∃ e, of? d.year 1 1 = some e ∧ e.year = d.year ∧ e.month = 1 ∧
    e.day = 1 :=
  exists_of? _ _ ⟨d.year_ge, d.year_le⟩ ⟨le_rfl, (by decide : 1 ≤ 31)⟩

/-- A day is not before 1 January of a year when its year is not before that one. -/
theorem newYear_le_iff {d e f : Date} (h : of? d.year 1 1 = some e) :
    e ≤ f ↔ d.year ≤ f.year := by
  obtain ⟨e', he', hyear, hmonth, hday⟩ := newYear_eq d
  obtain rfl := Option.some.inj (he'.symm.trans h)
  have hm := month_bounds f
  have hd := f.day_pos
  rw [← not_lt, lt_iff, Precedes]
  omega

theorem daysInMonth_pos {year : ℤ} {month : ℕ} (h : 1 ≤ month ∧ month ≤ 12) :
    1 ≤ daysInMonth year month := by
  unfold daysInMonth
  split_ifs with h0 <;> simp at h0 ⊢
  omega

/-- The same day some months before, or the last one of a shorter month. -/
theorem subMonths?_eq (d : Date) (k : ℕ) (h : -262143 * 12 + k ≤ Period.monthIndex d) :
    ∃ e, d.subMonths? k = some e ∧ Period.monthIndex e + k = Period.monthIndex d ∧
      e.day = min d.day (daysInMonth e.year e.month) := by
  have hm := month_bounds d
  have hle := d.year_le
  have hindex : Period.monthIndex d = d.year * 12 + (d.month - 1 : ℕ) := rfl
  rw [hindex] at h ⊢
  simp only [subMonths?]
  generalize hyear : (d.year * 12 + (d.month - 1 : ℕ) - (k : ℤ)) / 12 = year
  generalize hmonth : ((d.year * 12 + (d.month - 1 : ℕ) - (k : ℤ)) % 12).toNat + 1 = month
  have hvalid : (-262143 ≤ year ∧ year ≤ 262142) ∧ 1 ≤ min d.day (daysInMonth year month) ∧
      min d.day (daysInMonth year month) ≤ daysInMonth year month :=
    ⟨by omega, le_min d.day_pos (daysInMonth_pos (by omega)), min_le_right _ _⟩
  refine ⟨⟨_, _, _, hvalid.1.1, hvalid.1.2, hvalid.2.1, hvalid.2.2⟩, dif_pos hvalid, ?_, rfl⟩
  change year * 12 + (month - 1 : ℕ) + (k : ℤ) = _
  omega

/-- The same day some years before, or the last one of a shorter month. -/
theorem subMonths?_years (d : Date) (n : ℕ) (h : -262143 ≤ d.year - n) :
    ∃ e, d.subMonths? (12 * n) = some e ∧ e.year = d.year - n ∧ e.month = d.month ∧
      e.day = min d.day (daysInMonth (d.year - n) d.month) := by
  have hm := month_bounds d
  have hindex : Period.monthIndex d = d.year * 12 + (d.month - 1 : ℕ) := rfl
  obtain ⟨e, he, hsum, hday⟩ := subMonths?_eq d (12 * n) (by omega)
  have hm' := month_bounds e
  have hindex' : Period.monthIndex e = e.year * 12 + (e.month - 1 : ℕ) := rfl
  have hyear : e.year = d.year - n := by omega
  have hmonth : e.month = d.month := by omega
  exact ⟨e, he, hyear, hmonth, by rw [hday, hyear, hmonth]⟩

end Date

end Bourse
