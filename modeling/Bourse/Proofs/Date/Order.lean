import Mathlib.Data.String.Basic
import Bourse.Proofs.Date.Text

/-!
# The order of dates

Dates are ordered by year, then month, then day (`lt_iff`), which makes a linear order of them, and
the texts of dates with four-digit years are in the order of the dates (`iso_lt_iso_iff`).
-/

namespace Bourse.Date

theorem daysBeforeYear_succ (year : ℤ) :
    daysBeforeYear (year + 1) = daysBeforeYear year + if isLeapYear year then 366 else 365 := by
  have hleap : isLeapYear year = true ↔ year % 4 = 0 ∧ (year % 100 ≠ 0 ∨ year % 400 = 0) := by
    simp [isLeapYear]
  unfold daysBeforeYear
  split_ifs with h
  · rw [hleap] at h
    omega
  · rw [hleap] at h
    omega

theorem daysThroughMonth_twelve (year : ℤ) :
    (daysThroughMonth year 12 : ℤ) = if isLeapYear year then 366 else 365 := by
  simp only [daysThroughMonth, daysInMonth]
  cases isLeapYear year <;> rfl

theorem daysThroughMonth_mono (year : ℤ) {m n : ℕ} (h : m ≤ n) :
    daysThroughMonth year m ≤ daysThroughMonth year n := by
  induction h with
  | refl => exact le_rfl
  | step _ ih => exact ih.trans (Nat.le_add_right _ _)

theorem daysBeforeYear_mono {a b : ℤ} (h : a ≤ b) : daysBeforeYear a ≤ daysBeforeYear b := by
  unfold daysBeforeYear
  omega

theorem daysThroughMonth_pred (d : Date) : daysThroughMonth d.year (d.month - 1) + d.day
    ≤ daysThroughMonth d.year d.month := by
  obtain ⟨month, hmonth⟩ := Nat.exists_eq_succ_of_ne_zero (by have := month_bounds d; omega :
    d.month ≠ 0)
  have hday := d.day_le
  rw [hmonth] at hday ⊢
  exact Nat.add_le_add_left hday _

theorem serial_lt_daysBeforeYear (d : Date) : d.serial < daysBeforeYear (d.year + 1) := by
  have hpred := daysThroughMonth_pred d
  have hmono := daysThroughMonth_mono d.year (month_bounds d).2
  have htwelve := daysThroughMonth_twelve d.year
  have hday := d.day_pos
  rw [serial, daysBeforeYear_succ, ← htwelve]
  omega

theorem daysBeforeYear_le_serial (d : Date) : daysBeforeYear d.year ≤ d.serial := by
  unfold serial
  omega

/-- The order of dates by year, month and day. -/
def Precedes (a b : Date) : Prop :=
  a.year < b.year ∨ a.year = b.year ∧ (a.month < b.month ∨ a.month = b.month ∧ a.day < b.day)

theorem Precedes.lt {a b : Date} (h : Precedes a b) : a < b := by
  change a.serial < b.serial
  rcases h with hyear | ⟨hyear, hmonth | ⟨hmonth, hday⟩⟩
  · calc a.serial < daysBeforeYear (a.year + 1) := serial_lt_daysBeforeYear a
      _ ≤ daysBeforeYear b.year := daysBeforeYear_mono hyear
      _ ≤ b.serial := daysBeforeYear_le_serial b
  · have hpred := daysThroughMonth_pred a
    have hmono := daysThroughMonth_mono a.year (Nat.le_sub_one_of_lt hmonth)
    have hday := a.day_pos
    unfold serial
    rw [← hyear]
    omega
  · have hday' := a.day_pos
    unfold serial
    rw [← hyear, ← hmonth]
    omega

theorem precedes_trichotomy (a b : Date) : Precedes a b ∨ a = b ∨ Precedes b a := by
  have heq : a.year = b.year → a.month = b.month → a.day = b.day → a = b := by
    intro hy hm hd
    cases a
    cases b
    simp_all
  unfold Precedes
  rcases lt_trichotomy a.year b.year with h | h | h
  · exact .inl (.inl h)
  · rcases lt_trichotomy a.month b.month with h' | h' | h'
    · exact .inl (.inr ⟨h, .inl h'⟩)
    · rcases lt_trichotomy a.day b.day with h'' | h'' | h''
      · exact .inl (.inr ⟨h, .inr ⟨h', h''⟩⟩)
      · exact .inr (.inl (heq h h' h''))
      · exact .inr (.inr (.inr ⟨h.symm, .inr ⟨h'.symm, h''⟩⟩))
    · exact .inr (.inr (.inr ⟨h.symm, .inl h'⟩))
  · exact .inr (.inr (.inl h))

/-- Dates are ordered by year, then month, then day. -/
theorem lt_iff {a b : Date} : a < b ↔ Precedes a b := by
  refine ⟨fun h => ?_, Precedes.lt⟩
  change a.serial < b.serial at h
  rcases precedes_trichotomy a b with h' | rfl | h'
  · exact h'
  · exact absurd h (lt_irrefl _)
  · exact absurd h (asymm (show b.serial < a.serial from h'.lt))

theorem serial_inj {a b : Date} (h : a.serial = b.serial) : a = b := by
  rcases precedes_trichotomy a b with h' | h' | h'
  · exact absurd h (ne_of_lt (show a.serial < b.serial from h'.lt))
  · exact h'
  · exact absurd h.symm (ne_of_lt (show b.serial < a.serial from h'.lt))

instance : LinearOrder Date where
  le_refl a := le_refl a.serial
  le_trans a b c := le_trans (a := a.serial)
  lt_iff_le_not_ge a b := lt_iff_le_not_ge (a := a.serial)
  le_antisymm a b hab hba := serial_inj (le_antisymm hab hba)
  le_total a b := le_total a.serial b.serial
  toDecidableLE a b := inferInstance
  toDecidableLT a b := inferInstance
  toDecidableEq := inferInstance

theorem append_lt_append_iff {x y : List Char} : ∀ {a b : List Char}, a.length = b.length →
    (a ++ x < b ++ y ↔ a < b ∨ a = b ∧ x < y)
  | [], [], _ => by simp
  | c :: a, d :: b, h => by
    have ih := append_lt_append_iff (x := x) (y := y) (Nat.succ.inj h)
    rw [List.cons_append, List.cons_append, List.cons_lt_cons_iff, List.cons_lt_cons_iff, ih,
      List.cons.injEq]
    tauto

theorem digitChar_lt_iff : ∀ m < 10, ∀ n < 10, Nat.digitChar m < Nat.digitChar n ↔ m < n := by
  decide

theorem padded_succ {width n : ℕ} (hw : 0 < width) (hn : n < 10 ^ (width + 1)) :
    padded (width + 1) n = padded width (n / 10) ++ [Nat.digitChar (n % 10)] := by
  obtain h | h := Nat.lt_or_ge n 10
  · rw [Nat.div_eq_of_lt h, Nat.mod_eq_of_lt h]
    simp only [padded, Nat.toDigits_of_lt_base h, Nat.toDigits_zero, List.length_singleton,
      Nat.add_sub_cancel]
    rw [← List.replicate_succ', Nat.sub_add_cancel hw]
  · have hlen : (Nat.toDigits 10 (n / 10)).length ≤ width :=
      (Nat.length_toDigits_le_iff (by decide) hw).2 (Nat.div_lt_of_lt_mul (by rwa [← pow_succ']))
    simp only [padded, Nat.toDigits_of_base_le (by decide : 1 < 10) h, List.length_append,
      List.length_singleton, Nat.add_sub_add_right, List.append_assoc]

theorem padded_inj {width m n : ℕ} (h : padded width m = padded width n) : m = n := by
  rw [← ofDigitChars_padded width m, h, ofDigitChars_padded]

/-- Numbers of the same width are in the order of their digits. -/
theorem padded_lt_padded_iff {width : ℕ} (hw : 0 < width) : ∀ {m n : ℕ}, m < 10 ^ width →
    n < 10 ^ width → (padded width m < padded width n ↔ m < n) := by
  induction width, hw using Nat.le_induction with
  | base =>
    intro m n hm hn
    have hone : ∀ {k}, k < 10 → padded 1 k = [Nat.digitChar k] := by
      intro k hk
      simp only [padded, Nat.toDigits_of_lt_base hk, List.length_singleton, Nat.sub_self,
        List.replicate_zero, List.nil_append]
    rw [hone hm, hone hn, List.cons_lt_cons_iff, digitChar_lt_iff m hm n hn]
    simp
  | succ width hw ih =>
    intro m n hm hn
    have hdiv : ∀ {k}, k < 10 ^ (width + 1) → k / 10 < 10 ^ width := fun hk =>
      Nat.div_lt_of_lt_mul (by rwa [← pow_succ'])
    have hmod : ∀ k, k % 10 < 10 := fun k => Nat.mod_lt k (by decide)
    have hlen : (padded width (m / 10)).length = (padded width (n / 10)).length := by
      rw [length_padded width _ hw (hdiv hm), length_padded width _ hw (hdiv hn)]
    have heq : padded width (m / 10) = padded width (n / 10) ↔ m / 10 = n / 10 :=
      ⟨padded_inj, congrArg _⟩
    rw [padded_succ hw hm, padded_succ hw hn, append_lt_append_iff hlen, ih (hdiv hm) (hdiv hn),
      heq, List.cons_lt_cons_iff, digitChar_lt_iff _ (hmod m) _ (hmod n)]
    simp only [List.not_lt_nil, and_false, or_false]
    omega

theorem padded_append_lt_iff {width m n : ℕ} (hw : 0 < width) (hm : m < 10 ^ width)
    (hn : n < 10 ^ width) (c : Char) (x y : List Char) :
    padded width m ++ c :: x < padded width n ++ c :: y ↔ m < n ∨ m = n ∧ x < y := by
  have hlen : (padded width m).length = (padded width n).length := by
    rw [length_padded width m hw hm, length_padded width n hw hn]
  have heq : padded width m = padded width n ↔ m = n := ⟨padded_inj, congrArg _⟩
  rw [append_lt_append_iff hlen, padded_lt_padded_iff hw hm hn, heq, List.cons_lt_cons_iff]
  simp

/-- The texts of dates with years of four digits are in the order of the dates. -/
theorem iso_lt_iso_iff {a b : Date} (ha : 0 ≤ a.year ∧ a.year ≤ 9999)
    (hb : 0 ≤ b.year ∧ b.year ≤ 9999) : a.iso < b.iso ↔ a < b := by
  have hma := month_bounds a
  have hmb := month_bounds b
  have hda := day_le_31 a
  have hdb := day_le_31 b
  rw [String.lt_iff_toList_lt, iso, iso, String.toList_ofList, String.toList_ofList, isoChars,
    isoChars, yearChars, yearChars, if_pos ha, if_pos hb, List.append_assoc, List.append_assoc,
    List.cons_append, List.cons_append,
    padded_append_lt_iff (by decide) (by omega) (by omega),
    padded_append_lt_iff (by decide) (by omega) (by omega),
    padded_lt_padded_iff (by decide) (by omega) (by omega), lt_iff, Precedes]
  omega

/-- With more text after them such texts are still in the order of the dates. -/
theorem iso_append_lt_iff {a b : Date} (ha : 0 ≤ a.year ∧ a.year ≤ 9999)
    (hb : 0 ≤ b.year ∧ b.year ≤ 9999) (s t : String) :
    a.iso ++ s < b.iso ++ t ↔ a < b ∨ a = b ∧ s < t := by
  have hlen : a.iso.toList.length = b.iso.toList.length := by
    rw [iso, iso, String.toList_ofList, String.toList_ofList, length_isoChars ha,
      length_isoChars hb]
  have heq : a.iso.toList = b.iso.toList ↔ a = b :=
    ⟨fun h => iso_inj (String.toList_inj.1 h), fun h => h ▸ rfl⟩
  rw [String.lt_iff_toList_lt, String.toList_append, String.toList_append,
    append_lt_append_iff hlen, heq, ← String.lt_iff_toList_lt, ← String.lt_iff_toList_lt,
    iso_lt_iso_iff ha hb]

theorem iso_le_iso_iff {a b : Date} (ha : 0 ≤ a.year ∧ a.year ≤ 9999)
    (hb : 0 ≤ b.year ∧ b.year ≤ 9999) : a.iso ≤ b.iso ↔ a ≤ b := by
  rw [← not_lt, iso_lt_iso_iff hb ha, not_lt]

end Bourse.Date
