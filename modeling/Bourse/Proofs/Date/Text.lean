import Bourse.Date.Text
import Bourse.Proofs.Text.Digits

/-!
# Written dates

A written date is read back, by the slack reader for every date (`readSlack_iso`) and by the strict
one for the years of four digits, with any text after it (`readStart_append`).
-/

namespace Bourse.Date

open Text (takeWhile_digits isDigit_toDigits)

theorem isDigit_padded (width n : ℕ) : ∀ c ∈ padded width n, c.isDigit := by
  intro c hc
  rcases List.mem_append.1 hc with hc | hc
  · rw [List.eq_of_mem_replicate hc]
    rfl
  · exact isDigit_toDigits n c hc

theorem ofDigitChars_padded (width n : ℕ) : Nat.ofDigitChars 10 (padded width n) 0 = n := by
  rw [padded, Nat.ofDigitChars_append, Nat.ofDigitChars_replicate_zero, mul_zero,
    Nat.ofDigitChars_ten_toDigits]

theorem length_padded (width n : ℕ) (hw : 0 < width) (hn : n < 10 ^ width) :
    (padded width n).length = width := by
  have h := (Nat.length_toDigits_le_iff (by decide) hw).2 hn
  rw [padded, List.length_append, List.length_replicate]
  omega

theorem padded_ne_nil (width n : ℕ) : padded width n ≠ [] := by
  simp [padded, Nat.toDigits_ne_nil]

theorem readDigits_padded (width n : ℕ) {bound : ℕ} (rest : List Char)
    (h : (padded width n).length ≤ bound) (hr : ∀ c ∈ rest.head?, c.isDigit = false) :
    readDigits bound (padded width n ++ rest) = some (n, rest) := by
  obtain ⟨ht, -⟩ := takeWhile_digits (isDigit_padded width n) hr
  have hne : (padded width n).isEmpty = false := by
    simp [List.isEmpty_eq_false_iff, padded_ne_nil]
  simp only [readDigits, ht, List.take_of_length_le h, hne, ofDigitChars_padded,
    List.drop_left, Bool.false_eq_true, if_false]

theorem skipBlanks_cons {c : Char} (h : Text.isBlank c = false) (cs : List Char) :
    Text.skipBlanks (c :: cs) = c :: cs := by
  rw [Text.skipBlanks, List.dropWhile_cons_of_neg (by simp [h])]

theorem isBlank_digit {c : Char} (h : c.isDigit) : Text.isBlank c = false := by
  rw [Char.isDigit_iff_toNat] at h
  change 48 ≤ c.toNat ∧ c.toNat ≤ 57 at h
  simp only [Text.isBlank, Bool.or_eq_false_iff, Bool.and_eq_false_imp, beq_eq_false_iff_ne,
    decide_eq_true_eq, decide_eq_false_iff_not]
  omega

theorem skipBlanks_padded (width n : ℕ) (rest : List Char) :
    Text.skipBlanks (padded width n ++ rest) = padded width n ++ rest := by
  obtain ⟨c, cs, hc⟩ := List.exists_cons_of_ne_nil (padded_ne_nil width n)
  rw [hc, List.cons_append, skipBlanks_cons]
  exact isBlank_digit (isDigit_padded width n c (hc ▸ List.mem_cons_self))

theorem readHyphen_cons (slack : Bool) (rest : List Char) :
    readHyphen slack ('-' :: rest) = some rest := by
  cases slack <;> rfl

theorem readYear_yearChars (year : ℤ) (rest : List Char)
    (hr : ∀ c ∈ rest.head?, c.isDigit = false) :
    readYear (yearChars year ++ rest) = some (year, rest) := by
  unfold yearChars
  split_ifs with h1 h2
  · have hlen := length_padded 4 year.toNat (by decide) (by omega)
    have hread := readDigits_padded 4 year.toNat rest hlen.le hr
    obtain ⟨c, cs, hc⟩ := List.exists_cons_of_ne_nil (padded_ne_nil 4 year.toNat)
    have hd : c.isDigit := isDigit_padded 4 year.toNat c (hc ▸ List.mem_cons_self)
    have hminus : ∀ r, c :: (cs ++ rest) = '-' :: r → False := by
      rintro r h
      rw [(List.cons.inj h).1] at hd
      exact absurd hd (by decide)
    have hplus : ∀ r, c :: (cs ++ rest) = '+' :: r → False := by
      rintro r h
      rw [(List.cons.inj h).1] at hd
      exact absurd hd (by decide)
    rw [hc, List.cons_append] at hread ⊢
    simp only [readYear, hread, Option.map_some, Option.some.injEq, Prod.mk.injEq, and_true]
    omega
  · have hlen : (padded 4 year.natAbs).length ≤ (padded 4 year.natAbs ++ rest).length := by simp
    have hread := readDigits_padded 4 year.natAbs rest hlen hr
    rw [List.cons_append]
    simp only [readYear, hread, Option.map_some, Option.some.injEq, Prod.mk.injEq, and_true]
    omega
  · have hlen : (padded 4 year.natAbs).length ≤ (padded 4 year.natAbs ++ rest).length := by simp
    have hread := readDigits_padded 4 year.natAbs rest hlen hr
    rw [List.cons_append]
    simp only [readYear, hread, Option.map_some, Option.some.injEq, Prod.mk.injEq, and_true]
    omega

theorem skipBlanks_yearChars (year : ℤ) (rest : List Char) :
    Text.skipBlanks (yearChars year ++ rest) = yearChars year ++ rest := by
  unfold yearChars
  split_ifs
  · exact skipBlanks_padded _ _ _
  · exact skipBlanks_cons (by decide) _
  · exact skipBlanks_cons (by decide) _

theorem month_bounds (d : Date) : 1 ≤ d.month ∧ d.month ≤ 12 := by
  have h := le_trans d.day_pos d.day_le
  unfold daysInMonth at h
  split_ifs at h with h1 <;> simp at h1 <;> omega

theorem day_le_31 (d : Date) : d.day ≤ 31 := by
  have h := d.day_le
  unfold daysInMonth at h
  split_ifs at h <;> omega

theorem readChars_isoChars (slack : Bool) (d : Date) : readChars slack d.isoChars = some d := by
  have hm := month_bounds d
  have hd := day_le_31 d
  have hyear := readYear_yearChars d.year
    ('-' :: (padded 2 d.month ++ '-' :: (padded 2 d.day ++ []))) (by simp)
  have hmonth := readDigits_padded 2 d.month ('-' :: (padded 2 d.day ++ []))
    (length_padded 2 d.month (by decide) (by omega)).le (by simp)
  have hday := readDigits_padded 2 d.day [] (length_padded 2 d.day (by decide) (by omega)).le
    (by simp)
  have hchars : d.isoChars
      = yearChars d.year ++ '-' :: (padded 2 d.month ++ '-' :: (padded 2 d.day ++ [])) := by
    simp [isoChars]
  rw [readChars, hchars, skipBlanks_yearChars, hyear]
  simp only [Option.bind_eq_bind, Option.bind_some, readHyphen_cons, skipBlanks_padded, hmonth,
    hday]
  cases slack <;> simp [Text.skipBlanks, of?_self]

theorem readSlack_iso (d : Date) : readSlack d.iso = some d := by
  rw [readSlack, iso, String.toList_ofList, readChars_isoChars]

theorem iso_inj {d e : Date} (h : d.iso = e.iso) : d = e := by
  have hd := readSlack_iso d
  rw [h, readSlack_iso] at hd
  exact (Option.some.inj hd).symm

theorem takeBytes_append (rest : List Char) : ∀ {cs : List Char}, (∀ c ∈ cs, c.utf8Size = 1) →
    takeBytes cs.length (cs ++ rest) = some cs
  | [], _ => by simp [takeBytes]
  | c :: cs, h => by
    have hc := h c List.mem_cons_self
    have ih := takeBytes_append rest fun d hd => h d (List.mem_cons_of_mem c hd)
    rw [List.length_cons, List.cons_append, takeBytes, hc, if_pos (by omega), Nat.add_sub_cancel,
      ih]
    · rfl
    · exact Nat.succ_ne_zero _

theorem utf8Size_padded (width n : ℕ) : ∀ c ∈ padded width n, c.utf8Size = 1 := by
  intro c hc
  have hd := isDigit_padded width n c hc
  rw [Char.isDigit_iff_toNat] at hd
  have hle : c.val ≤ 127 := by
    rw [UInt32.le_iff_toNat_le]
    exact le_trans hd.2 (by decide)
  rw [Char.utf8Size, if_pos (by simpa using hle)]

theorem length_isoChars {d : Date} (h : 0 ≤ d.year ∧ d.year ≤ 9999) : d.isoChars.length = 10 := by
  have hm := month_bounds d
  have hd := day_le_31 d
  have h1 := length_padded 4 d.year.toNat (by decide) (by omega)
  have h2 := length_padded 2 d.month (by decide) (by omega)
  have h3 := length_padded 2 d.day (by decide) (by omega)
  simp only [isoChars, yearChars, if_pos h, List.length_append, List.length_cons, h1, h2, h3]

theorem utf8Size_isoChars {d : Date} (h : 0 ≤ d.year ∧ d.year ≤ 9999) :
    ∀ c ∈ d.isoChars, c.utf8Size = 1 := by
  intro c hc
  simp only [isoChars, yearChars, if_pos h, List.mem_append, List.mem_cons] at hc
  rcases hc with (hc | rfl | hc) | rfl | hc
  · exact utf8Size_padded _ _ c hc
  · rfl
  · exact utf8Size_padded _ _ c hc
  · rfl
  · exact utf8Size_padded _ _ c hc

/-- A date is read from the start of a text, whatever follows it. -/
theorem readStart_append {d : Date} (h : 0 ≤ d.year ∧ d.year ≤ 9999) (suffix : String) :
    readStart (d.iso ++ suffix) = some d := by
  have htake := takeBytes_append suffix.toList (utf8Size_isoChars h)
  rw [length_isoChars h] at htake
  rw [readStart, iso, String.toList_append, String.toList_ofList, htake, Option.bind_some,
    readChars_isoChars]

theorem readStart_iso (d : Date) (h : 0 ≤ d.year ∧ d.year ≤ 9999) : readStart d.iso = some d := by
  rw [← String.append_empty (s := d.iso), readStart_append h]

end Bourse.Date
