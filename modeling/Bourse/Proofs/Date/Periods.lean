import Mathlib.Order.Bounds.Basic
import Bourse.Proofs.Date.Calendar

/-!
# Ends of periods

The periods of a unit follow each other through the calendar and are numbered by `Period.index`. As
long as the period some steps back starts within the calendar, the end that is computed for it is
its last day, no number on the way leaves its word, and no fallback is taken
(`closes_endBefore`). An earlier period ends earlier, so ends go back as the steps do.
-/

namespace Bourse.Period

open Date

/-! ## Numbers of periods -/

/-- The number of the period that holds a day. Weeks go from Monday to Sunday, and the first day of
year 1 is a Monday. -/
def index : Period → Date → ℤ
  | day, d => d.serial
  | week, d => d.serial / 7
  | month, d => monthIndex d
  | quarter, d => quarterIndex d
  | year, d => d.year

/-- The first day of a period. -/
def Starts : Period → Date → Prop
  | day, _ => True
  | week, d => d.daysFromMonday = 0
  | month, d => d.day = 1
  | quarter, d => d.day = 1 ∧ d.month % 3 = 1
  | year, d => d.day = 1 ∧ d.month = 1

/-- The last day of a period. -/
def Ends : Period → Date → Prop
  | day, _ => True
  | week, d => d.daysFromMonday = 6
  | month, d => d.day = daysInMonth d.year d.month
  | quarter, d => d.day = daysInMonth d.year d.month ∧ d.month % 3 = 0
  | year, d => d.day = 31 ∧ d.month = 12

variable {unit : Period} {d e today : Date}

theorem monthIndex_eq (d : Date) : monthIndex d = d.year * 12 + (d.month - 1 : ℕ) := rfl

theorem quarterIndex_eq (d : Date) : quarterIndex d = d.year * 4 + ((d.month - 1) / 3 : ℕ) := rfl

theorem daysFromMonday_eq (d : Date) : (d.daysFromMonday : ℤ) = d.serial % 7 :=
  Int.toNat_of_nonneg (Int.emod_nonneg _ (by decide))

theorem december_days (year : ℤ) : daysInMonth year 12 = 31 := rfl

/-- Later days are in later periods, or in the same one. -/
theorem index_mono (h : d ≤ e) : unit.index d ≤ unit.index e := by
  have hserial : d.serial ≤ e.serial := h
  have hd := month_bounds d
  have he := month_bounds e
  have hdate := not_lt.2 h
  rw [lt_iff, Precedes] at hdate
  cases unit with
  | day => exact hserial
  | week => exact Int.ediv_le_ediv (by decide) hserial
  | month =>
    rw [index, index, monthIndex_eq, monthIndex_eq]
    omega
  | quarter =>
    rw [index, index, quarterIndex_eq, quarterIndex_eq]
    omega
  | year => exact year_mono h

theorem lt_of_index_lt (unit : Period) (h : unit.index d < unit.index e) : d < e := by
  by_contra hle
  exact absurd (index_mono (not_lt.1 hle)) (not_le.2 h)

/-- A day is not after the end of a period when its own period is not after that one. -/
theorem Ends.le_iff (he : unit.Ends e) : d ≤ e ↔ unit.index d ≤ unit.index e := by
  refine ⟨index_mono, fun h => ?_⟩
  have hmd := month_bounds d
  have hme := month_bounds e
  have hday := d.day_le
  have hsame : d.year = e.year → d.month = e.month → d.day ≤ daysInMonth e.year e.month := by
    intro hyear hmonth
    rwa [← hyear, ← hmonth]
  cases unit with
  | day => exact h
  | week =>
    have hsunday := daysFromMonday_eq e
    rw [Ends] at he
    rw [index, index] at h
    change d.serial ≤ e.serial
    omega
  | month =>
    rw [index, index, monthIndex_eq, monthIndex_eq] at h
    rw [Ends] at he
    rw [← not_lt, lt_iff, Precedes]
    omega
  | quarter =>
    rw [index, index, quarterIndex_eq, quarterIndex_eq] at h
    rw [Ends] at he
    rw [← not_lt, lt_iff, Precedes]
    omega
  | year =>
    rw [index, index] at h
    obtain ⟨he, hmonth⟩ := he
    rw [hmonth, december_days] at hsame
    rw [← not_lt, lt_iff, Precedes]
    omega

/-- The end of a period is the greatest of its days. -/
theorem Ends.isGreatest (he : unit.Ends e) {k : ℕ} (h : unit.index e + k = unit.index today) :
    IsGreatest {d | unit.index d + k = unit.index today} e := by
  refine ⟨h, fun d hd => ?_⟩
  have hsame : unit.index d + k = unit.index today := hd
  exact he.le_iff.2 (by omega)

/-! ## First and last days -/

theorem exists_between (n : ℤ) (hd : d.serial ≤ n) (htoday : n ≤ today.serial) :
    ∃ a : Date, a.serial = n := by
  refine exists_serial ?_ ?_
  · exact (daysBeforeYear_mono d.year_ge).trans ((daysBeforeYear_le_serial d).trans hd)
  · have hmono := daysBeforeYear_mono (Int.add_le_add_right today.year_le 1)
    exact htoday.trans_lt ((serial_lt_daysBeforeYear today).trans_le hmono)

/-- Every period after one of the calendar's, up to today's, has its first day in the calendar. -/
theorem exists_starts {n : ℤ} (hd : unit.index d < n) (htoday : n ≤ unit.index today) :
    ∃ first, unit.Starts first ∧ unit.index first = n := by
  have hmd := month_bounds d
  have hmt := month_bounds today
  have hge := d.year_ge
  have hle := today.year_le
  cases unit with
  | day =>
    obtain ⟨a, ha⟩ := exists_between n (le_of_lt hd) htoday
    exact ⟨a, trivial, ha⟩
  | week =>
    rw [index] at hd htoday
    obtain ⟨a, ha⟩ := @exists_between d today (7 * n) (by omega) (by omega)
    have hmonday := daysFromMonday_eq a
    refine ⟨a, ?_, ?_⟩
    · rw [Starts]
      omega
    · rw [index]
      omega
  | month =>
    rw [index, monthIndex_eq] at hd htoday
    obtain ⟨a, -, hyear, hmonth, hday⟩ := exists_of? (n / 12) ((n % 12).toNat + 1) (by omega)
      ⟨le_rfl, daysInMonth_pos (by omega)⟩
    refine ⟨a, hday, ?_⟩
    rw [index, monthIndex_eq]
    omega
  | quarter =>
    rw [index, quarterIndex_eq] at hd htoday
    obtain ⟨a, -, hyear, hmonth, hday⟩ := exists_of? (n / 4) ((n % 4).toNat * 3 + 1) (by omega)
      ⟨le_rfl, daysInMonth_pos (by omega)⟩
    refine ⟨a, ⟨hday, by omega⟩, ?_⟩
    rw [index, quarterIndex_eq]
    omega
  | year =>
    rw [index] at hd htoday
    obtain ⟨a, -, hyear, hmonth, hday⟩ := exists_of? n 1 (by omega) ⟨le_rfl, (by decide : 1 ≤ 31)⟩
    exact ⟨a, ⟨hday, hmonth⟩, hyear⟩

/-- Every period before today's has its last day in the calendar. -/
theorem exists_ends (h : unit.index d < unit.index today) :
    ∃ e, unit.Ends e ∧ unit.index e = unit.index d := by
  have hmonth := month_bounds d
  have hyear : -262143 ≤ d.year ∧ d.year ≤ 262142 := ⟨d.year_ge, d.year_le⟩
  cases unit with
  | day => exact ⟨d, trivial, rfl⟩
  | week =>
    rw [index, index] at h
    obtain ⟨a, ha⟩ := @exists_between d today (7 * (d.serial / 7) + 6) (by omega) (by omega)
    have hsunday := daysFromMonday_eq a
    refine ⟨a, ?_, ?_⟩
    · rw [Ends]
      omega
    · rw [index, index]
      omega
  | month =>
    obtain ⟨a, -, hyear, hmonth', hday⟩ := exists_of? _ _ hyear ⟨daysInMonth_pos hmonth, le_rfl⟩
    refine ⟨a, ?_, ?_⟩
    · rw [Ends, hday, hyear, hmonth']
    · rw [index, index, monthIndex_eq, monthIndex_eq, hyear, hmonth']
  | quarter =>
    obtain ⟨a, -, hyear, hmonth', hday⟩ := exists_of? _ ((d.month - 1) / 3 * 3 + 3) hyear
      ⟨daysInMonth_pos (by omega), le_rfl⟩
    refine ⟨a, ⟨by rw [hday, hyear, hmonth'], by omega⟩, ?_⟩
    rw [index, index, quarterIndex_eq, quarterIndex_eq]
    omega
  | year =>
    obtain ⟨a, -, hyear, hmonth', hday⟩ := exists_of? _ 12 hyear ⟨(by decide : 1 ≤ 31), le_rfl⟩
    exact ⟨a, ⟨hday, hmonth'⟩, hyear⟩

/-! ## Words -/

theorem word_eq {n : ℤ} (h : -2147483648 ≤ n ∧ n < 2147483648) : word n = n := by
  have hsize : ((UInt32.size : ℕ) : ℤ) = 4294967296 := rfl
  rw [word, Int.bmod_def, hsize]
  split_ifs <;> omega

/-- A number that a signed 32-bit word holds. -/
def word? (n : ℤ) : Option ℤ :=
  if -2147483648 ≤ n ∧ n < 2147483648 then some n else none

theorem of_word? {m n : ℤ} (h : word? n = some m) : m = n ∧ word n = n := by
  unfold word? at h
  split_ifs at h with hn
  exact ⟨(Option.some.inj h).symm, word_eq hn⟩

theorem word?_eq {n : ℤ} (h : -2147483648 ≤ n ∧ n < 2147483648) : word? n = some n :=
  if_pos h

/-- The number of the period `k` steps before the one with number `n`, when words hold it. -/
def numberBefore? (n : ℤ) (k : UInt32) : Option ℤ := do
  let back ← word? k.toNat
  word? (n - back)

theorem of_numberBefore? {m n : ℤ} {k : UInt32} (h : numberBefore? n k = some m) :
    word (n - word k.toNat) = m := by
  rw [numberBefore?, Option.bind_eq_bind, Option.bind_eq_some_iff] at h
  obtain ⟨back, hback, hnumber⟩ := h
  obtain ⟨rfl, hword⟩ := of_word? hback
  obtain ⟨rfl, hword'⟩ := of_word? hnumber
  rw [hword, hword']

theorem numberBefore?_eq {m n : ℤ} {k : UInt32} (h : m + k.toNat = n) (hm : -2147483648 ≤ m)
    (hk : k.toNat < 2147483648) (hn : n < 2147483648) : numberBefore? n k = some m := by
  have hback : word? k.toNat = some (k.toNat : ℤ) := word?_eq (by omega)
  have hm' : n - k.toNat = m := by omega
  rw [numberBefore?, hback, Option.bind_eq_bind, Option.bind_some, hm']
  exact word?_eq (by omega)

/-- As `monthEnd`, without a date when a number on the way does not fit its word or the end has no
date. -/
def monthEnd? (year : ℤ) (month : ℕ) : Option Date := do
  let next ← if month = 12 then (word? (year + 1)).bind (of? · 1 1) else of? year (month + 1) 1
  next.addDays? (-1)

theorem of_monthEnd? {year : ℤ} {month : ℕ} (h : monthEnd? year month = some e) :
    monthEnd year month = e := by
  unfold monthEnd? at h
  unfold monthEnd
  split_ifs at h ⊢
  · obtain ⟨next, hnext, hback⟩ := Option.bind_eq_some_iff.1 h
    obtain ⟨_, hyear, hof⟩ := Option.bind_eq_some_iff.1 hnext
    obtain ⟨rfl, hword⟩ := of_word? hyear
    simp only [hword, hof, Option.bind_some, hback, Option.getD_some]
  · obtain ⟨next, hof, hback⟩ := Option.bind_eq_some_iff.1 h
    simp only [hof, Option.bind_some, hback, Option.getD_some]

/-- The last day of a month is the one before the next month's first. -/
theorem monthEnd?_eq (hday : e.day = daysInMonth e.year e.month) (hlater : e < today) :
    monthEnd? e.year e.month = some e := by
  have hm := month_bounds e
  have hge := e.year_ge
  have hle := e.year_le
  have hyear : e.month = 12 → e.year < 262142 := by
    intro hmonth
    have hle := today.year_le
    have hmt := month_bounds today
    have hdt := day_le_31 today
    rw [hmonth, december_days] at hday
    rw [lt_iff, Precedes] at hlater
    omega
  obtain ⟨month, hmonth⟩ := Nat.exists_eq_succ_of_ne_zero (by omega : e.month ≠ 0)
  have hserial : e.serial + 1 = daysBeforeYear e.year + daysThroughMonth e.year e.month := by
    have hpos := e.day_pos
    rw [serial, hday, hmonth, Nat.succ_sub_one, daysThroughMonth]
    rw [hday, hmonth] at hpos
    simp only [Nat.succ_eq_add_one] at hpos ⊢
    omega
  have hback : ∀ next : Date, next.serial = e.serial + 1 → next.addDays? (-1) = some e :=
    fun next h => addDays?_eq (by omega)
  by_cases h12 : e.month = 12
  · have hlt := hyear h12
    obtain ⟨next, hof, hy, hm', hd'⟩ := exists_of? (e.year + 1) 1 (by omega)
      ⟨le_rfl, (by decide : 1 ≤ 31)⟩
    have hnext : next.serial = e.serial + 1 := by
      rw [hserial, h12, daysThroughMonth_twelve, ← daysBeforeYear_succ, serial, hy, hm', hd']
      simp [daysThroughMonth]
    have hword : word? (e.year + 1) = some (e.year + 1) := word?_eq (by omega)
    simp only [monthEnd?, if_pos h12, hword, Option.bind_some, hof]
    exact hback next hnext
  · obtain ⟨next, hof, hy, hm', hd'⟩ := exists_of? e.year (e.month + 1) ⟨hge, hle⟩
      ⟨le_rfl, daysInMonth_pos (by omega)⟩
    have hnext : next.serial = e.serial + 1 := by
      rw [hserial, serial, hy, hm', hd', Nat.add_sub_cancel]
      simp
    simp only [monthEnd?, if_neg h12, hof]
    exact hback next hnext

/-! ## Ends -/

/-- As `endBefore`, without a date when a number on the way does not fit its word or a step leaves
the calendar. -/
def endBefore? (today : Date) (unit : Period) (k : UInt32) : Option Date :=
  if k = 0 then some today
  else match unit with
    | day => today.addDays? (-(k.toNat : ℤ))
    | week => do
      guard (7 * k.toNat < 2 ^ 64)
      let d ← today.addDays? (-(7 * k.toNat : ℕ))
      guard (d.daysFromMonday ≤ 6)
      d.addDays? (6 - d.daysFromMonday : ℕ)
    | month => do
      let months ← word? (today.year * 12)
      let number ← word? (months + (today.month - 1 : ℕ))
      let number ← numberBefore? number k
      monthEnd? (number / 12) ((number % 12).toNat + 1)
    | quarter => do
      let quarters ← word? (today.year * 4)
      let number ← word? (quarters + ((today.month - 1) / 3 : ℕ))
      let number ← numberBefore? number k
      monthEnd? (number / 4) ((number % 4).toNat * 3 + 3)
    | year => do
      let number ← numberBefore? today.year k
      monthEnd? number 12

/-- Where nothing goes wrong, the end is the same. -/
theorem of_endBefore? {k : UInt32} (h : endBefore? today unit k = some e) :
    unit.endBefore today k = e := by
  unfold endBefore? at h
  unfold endBefore
  split_ifs at h ⊢
  · exact Option.some.inj h
  cases unit with
  | day => simp only [h, Option.getD_some]
  | week =>
    simp only [Option.bind_eq_bind, Option.bind_eq_some_iff] at h
    obtain ⟨-, -, d, hd, -, -, he⟩ := h
    simp only [hd, Option.getD_some, he]
  | month =>
    simp only [Option.bind_eq_bind, Option.bind_eq_some_iff] at h
    obtain ⟨_, hmonths, _, htoday, number, hnumber, he⟩ := h
    obtain ⟨rfl, -⟩ := of_word? hmonths
    obtain ⟨rfl, -⟩ := of_word? htoday
    simp only [monthIndex_eq, of_numberBefore? hnumber, of_monthEnd? he]
  | quarter =>
    simp only [Option.bind_eq_bind, Option.bind_eq_some_iff] at h
    obtain ⟨_, hquarters, _, htoday, number, hnumber, he⟩ := h
    obtain ⟨rfl, -⟩ := of_word? hquarters
    obtain ⟨rfl, -⟩ := of_word? htoday
    simp only [quarterIndex_eq, of_numberBefore? hnumber, of_monthEnd? he]
  | year =>
    simp only [Option.bind_eq_bind, Option.bind_eq_some_iff] at h
    obtain ⟨number, hnumber, he⟩ := h
    simp only [of_numberBefore? hnumber, of_monthEnd? he]

section Units

variable {k : UInt32} (hk : k ≠ 0) {first : Date}

include hk

theorem endBefore?_week (hfirst : week.Starts first)
    (hindex : week.index first + k.toNat = week.index today) (he : week.Ends e)
    (hend : week.index e = week.index first) : endBefore? today week k = some e := by
  have hmonday := daysFromMonday_eq first
  have hsunday := daysFromMonday_eq e
  rw [Starts] at hfirst
  rw [Ends] at he
  rw [index, index] at hend hindex
  obtain ⟨d, hd⟩ := @exists_between first today (today.serial - 7 * k.toNat) (by omega) (by omega)
  have hweekday := daysFromMonday_eq d
  have hback : today.addDays? (-(7 * k.toNat : ℕ)) = some d := addDays?_eq (by omega)
  have hforward : d.addDays? (6 - d.daysFromMonday : ℕ) = some e := addDays?_eq (by omega)
  have hsize := k.toNat_lt
  have hword : 7 * k.toNat < 2 ^ 64 := by omega
  have hsix : d.daysFromMonday ≤ 6 := by omega
  unfold endBefore?
  simp only [if_neg hk, hword, hback, hsix, hforward, guard_true, Option.pure_def,
    Option.bind_eq_bind, Option.bind_some]

theorem endBefore?_month (hlater : e < today)
    (hindex : month.index e + k.toNat = month.index today) (he : month.Ends e) :
    endBefore? today month k = some e := by
  have hme := month_bounds e
  have hmt := month_bounds today
  have hge := e.year_ge
  have hle := today.year_le
  rw [index, index, monthIndex_eq, monthIndex_eq] at hindex
  have hmonths : word? (today.year * 12) = some (today.year * 12) := word?_eq (by omega)
  have htoday : word? (today.year * 12 + (today.month - 1 : ℕ)) = some _ := word?_eq (by omega)
  have hnumber : numberBefore? (today.year * 12 + (today.month - 1 : ℕ)) k = some _ :=
    numberBefore?_eq hindex (by omega) (by omega) (by omega)
  have hyear : (e.year * 12 + (e.month - 1 : ℕ)) / 12 = e.year := by omega
  have hmonth : ((e.year * 12 + (e.month - 1 : ℕ)) % 12).toNat + 1 = e.month := by omega
  have hend : monthEnd? ((e.year * 12 + (e.month - 1 : ℕ)) / 12)
      (((e.year * 12 + (e.month - 1 : ℕ)) % 12).toNat + 1) = some e := by
    rw [hyear, hmonth, monthEnd?_eq he hlater]
  unfold endBefore?
  simp only [if_neg hk, Option.bind_eq_bind, Option.bind_eq_some_iff]
  exact ⟨_, hmonths, _, htoday, _, hnumber, hend⟩

theorem endBefore?_quarter (hlater : e < today)
    (hindex : quarter.index e + k.toNat = quarter.index today) (he : quarter.Ends e) :
    endBefore? today quarter k = some e := by
  have hme := month_bounds e
  have hmt := month_bounds today
  have hge := e.year_ge
  have hle := today.year_le
  rw [index, index, quarterIndex_eq, quarterIndex_eq] at hindex
  have hquarters : word? (today.year * 4) = some (today.year * 4) := word?_eq (by omega)
  have htoday : word? (today.year * 4 + ((today.month - 1) / 3 : ℕ)) = some _ :=
    word?_eq (by omega)
  have hnumber : numberBefore? (today.year * 4 + ((today.month - 1) / 3 : ℕ)) k = some _ :=
    numberBefore?_eq hindex (by omega) (by omega) (by omega)
  obtain ⟨hday, hthird⟩ := he
  have hyear : (e.year * 4 + ((e.month - 1) / 3 : ℕ)) / 4 = e.year := by omega
  have hmonth : ((e.year * 4 + ((e.month - 1) / 3 : ℕ)) % 4).toNat * 3 + 3 = e.month := by omega
  have hend : monthEnd? ((e.year * 4 + ((e.month - 1) / 3 : ℕ)) / 4)
      (((e.year * 4 + ((e.month - 1) / 3 : ℕ)) % 4).toNat * 3 + 3) = some e := by
    rw [hyear, hmonth, monthEnd?_eq hday hlater]
  unfold endBefore?
  simp only [if_neg hk, Option.bind_eq_bind, Option.bind_eq_some_iff]
  exact ⟨_, hquarters, _, htoday, _, hnumber, hend⟩

/-- The steps back to a period that starts within the calendar arrive at its last day. -/
theorem endBefore?_eq (hfirst : unit.Starts first)
    (hindex : unit.index first + k.toNat = unit.index today) (he : unit.Ends e)
    (hend : unit.index e = unit.index first) : endBefore? today unit k = some e := by
  have hpos : 0 < k.toNat := Nat.pos_of_ne_zero fun h => hk (UInt32.toNat_inj.1 h)
  have hlater : e < today := lt_of_index_lt unit (by omega)
  have hindex' : unit.index e + k.toNat = unit.index today := hend ▸ hindex
  cases unit with
  | day =>
    rw [index, index] at hindex'
    have hback : today.addDays? (-(k.toNat : ℤ)) = some e := addDays?_eq (by omega)
    simp only [endBefore?, if_neg hk, hback]
  | week => exact endBefore?_week hk hfirst hindex he hend
  | month => exact endBefore?_month hk hlater hindex' he
  | quarter => exact endBefore?_quarter hk hlater hindex' he
  | year =>
    have hge := e.year_ge
    have hle := today.year_le
    rw [index, index] at hindex'
    have hnumber : numberBefore? today.year k = some e.year :=
      numberBefore?_eq hindex' (by omega) (by omega) (by omega)
    obtain ⟨hday, hmonth⟩ := he
    have hlast : e.day = daysInMonth e.year e.month := by rw [hday, hmonth, december_days]
    have hyear : monthEnd? e.year 12 = some e := by
      rw [← hmonth, monthEnd?_eq hlast hlater]
    simp only [endBefore?, if_neg hk]
    exact Option.bind_eq_some_iff.2 ⟨_, hnumber, hyear⟩

end Units

/-- The end computed for the period some steps before that of `today` is right: nothing goes wrong
on the way, and it is the last day of that period. -/
structure Closes (unit : Period) (today : Date) (k : UInt32) (e : Date) : Prop where
  computed : endBefore? today unit k = some e
  ends : unit.Ends e
  last : IsGreatest {d | unit.index d + k.toNat = unit.index today} e

theorem closes_of_starts {k : UInt32} (hk : k ≠ 0)
    (h : ∃ first, unit.Starts first ∧ unit.index first + k.toNat = unit.index today) :
    unit.Closes today k (unit.endBefore today k) := by
  obtain ⟨first, hfirst, hindex⟩ := h
  have hpos : 0 < k.toNat := Nat.pos_of_ne_zero fun h => hk (UInt32.toNat_inj.1 h)
  obtain ⟨e, he, hend⟩ := @exists_ends unit first today (by omega)
  have hexact := endBefore?_eq hk hfirst hindex he hend
  rw [of_endBefore? hexact]
  exact ⟨hexact, he, he.isGreatest (by omega)⟩

theorem Closes.index_eq {k : UInt32} (h : unit.Closes today k e) :
    unit.index e + k.toNat = unit.index today :=
  h.last.1

/-- Later steps go to earlier ends. -/
theorem endBefore_lt {j k : UInt32} (hjk : j < k)
    (h : ∃ first, unit.Starts first ∧ unit.index first + k.toNat = unit.index today) :
    unit.endBefore today k < unit.endBefore today j := by
  have hlt : j.toNat < k.toNat := hjk
  have hk : k ≠ 0 := by
    rintro rfl
    exact Nat.not_lt_zero _ hlt
  have hindex := (closes_of_starts hk h).index_eq
  refine lt_of_index_lt unit ?_
  by_cases hj : j = 0
  · rw [hj, endBefore_zero]
    omega
  · obtain ⟨first, -, hfirst⟩ := h
    have hjpos : 0 < j.toNat := Nat.pos_of_ne_zero fun h => hj (UInt32.toNat_inj.1 h)
    obtain ⟨first', hstarts, hfirst'⟩ :=
      @exists_starts unit first today (unit.index today - j.toNat) (by omega) (by omega)
    have hsum : unit.index first' + j.toNat = unit.index today := by omega
    have hindex' := (closes_of_starts hj ⟨first', hstarts, hsum⟩).index_eq
    omega

/-- From today to the end of an earlier period, the ends computed for the periods on the way are
right, and they go back step by step. -/
theorem closes_endBefore (today : Date) (unit : Period) :
    unit.endBefore today 0 = today ∧ ∀ k : UInt32, k ≠ 0 →
      (∃ first, unit.Starts first ∧ unit.index first + k.toNat = unit.index today) →
        unit.Closes today k (unit.endBefore today k) ∧
          ∀ j < k, unit.endBefore today k < unit.endBefore today j :=
  ⟨rfl, fun _ hk h => ⟨closes_of_starts hk h, fun _ hjk => endBefore_lt hjk h⟩⟩

/-- Five quarters before the leap day of year 0. -/
theorem closes_endBefore_leap : ∃ today : Date, today.iso = "0000-02-29" ∧
    quarter.Closes today 5 (quarter.endBefore today 5) ∧
      (quarter.endBefore today 5).iso = "-0002-12-31" := by
  refine ⟨⟨0, 2, 29, by decide, by decide, by decide, by decide⟩, by decide +kernel, ?_,
    by decide +kernel⟩
  -- the quarter begins on 1 October of year -2
  exact ((closes_endBefore _ quarter).2 5 (by decide)
    ⟨⟨-2, 10, 1, by decide, by decide, by decide, by decide⟩, ⟨rfl, rfl⟩, by decide⟩).1

/-! ## Within a few years -/

/-- Periods up to twenty steps back start in the last twenty-one years. -/
theorem exists_starts_of_year (htoday : -262122 ≤ today.year) {k : ℕ} (hk : k ≤ 20)
    (unit : Period) : ∃ first, unit.Starts first ∧ unit.index first + k = unit.index today ∧
      today.year - 21 ≤ first.year := by
  have hle := today.year_le
  have hmonth := month_bounds today
  obtain ⟨d, -, hyear, hmonth', hday⟩ := exists_of? (today.year - 21) 1 (by omega)
    ⟨le_rfl, (by decide : 1 ≤ 31)⟩
  have hserial : d.serial + 7665 ≤ today.serial := by
    have hstart := daysBeforeYear_le_serial today
    have hd : d.serial = daysBeforeYear (today.year - 21) := by
      simp [serial, hyear, hmonth', hday, daysThroughMonth]
    unfold daysBeforeYear at hstart hd
    omega
  have hindex : unit.index d < unit.index today - k := by
    cases unit with
    | day =>
      rw [index, index]
      omega
    | week =>
      rw [index, index]
      omega
    | month =>
      rw [index, index, monthIndex_eq, monthIndex_eq]
      omega
    | quarter =>
      rw [index, index, quarterIndex_eq, quarterIndex_eq]
      omega
    | year =>
      rw [index, index]
      omega
  obtain ⟨first, hstarts, hfirst⟩ := @exists_starts unit d today _ hindex (by omega)
  refine ⟨first, hstarts, by omega, ?_⟩
  have hmono := year_mono (lt_of_index_lt unit (hfirst ▸ hindex)).le
  omega

/-- A period that ends at most twenty steps before today's ends in one of the last years. -/
theorem endBefore_year (htoday : -262122 ≤ today.year) {k : UInt32} (hk : k.toNat ≤ 20)
    (unit : Period) : today.year - 21 ≤ (unit.endBefore today k).year ∧
      (unit.endBefore today k).year ≤ today.year := by
  by_cases hzero : k = 0
  · rw [hzero, endBefore_zero]
    omega
  obtain ⟨first, hstarts, hindex, hyear⟩ := exists_starts_of_year htoday hk unit
  have hcloses := closes_of_starts hzero ⟨first, hstarts, hindex⟩
  have hfirst : first ≤ unit.endBefore today k := hcloses.last.2 hindex
  have hback := endBefore_lt (UInt32.pos_iff_ne_zero.2 hzero) ⟨first, hstarts, hindex⟩
  exact ⟨hyear.trans (year_mono hfirst), year_mono hback.le⟩

end Bourse.Period
