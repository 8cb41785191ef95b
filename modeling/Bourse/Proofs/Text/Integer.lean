import Mathlib.Data.Int.Notation
import Mathlib.Data.List.Basic
import Bourse.Proofs.Outcome
import Bourse.Text.Integer

/-!
# What is read as an integer

A text is read as a natural number exactly when it is a numeral, one or more decimal digits after at
most one plus sign, whose value is within the bound (`readNat_eq_ok_iff`). With a minus sign allowed
in its place it is read as an integer exactly when the value is within the bounds on both sides
(`readInt_eq_ok_iff`).
-/

namespace Bourse.Text

/-- Decimal digits with the value, after at most one plus sign. -/
def IsNumeral (s : String) (value : ℕ) : Prop :=
  ∃ digits, (s.toList = digits ∨ s.toList = '+' :: digits) ∧ digits ≠ [] ∧
    (∀ c ∈ digits, c.isDigit) ∧ Nat.ofDigitChars 10 digits 0 = value

theorem le_ofDigitChars (digits : List Char) (value : ℕ) :
    value ≤ Nat.ofDigitChars 10 digits value := by
  rw [Nat.ofDigitChars_eq_ofDigitChars_zero]
  have hpos : 0 < 10 ^ digits.length := Nat.pow_pos (by decide)
  exact Nat.le_trans (Nat.le_mul_of_pos_left value hpos) (Nat.le_add_right _ _)

theorem readDigits_eq_ok_iff {bound : ℕ} {outside : IntegerFault} {n : ℕ} :
    ∀ (digits : List Char) (value : ℕ), value ≤ bound →
      (readDigits bound outside digits value = .ok n ↔
        (∀ c ∈ digits, c.isDigit) ∧ Nat.ofDigitChars 10 digits value = n ∧ n ≤ bound)
  | [], value, hvalue => by
    simp only [readDigits, Except.ok.injEq, List.not_mem_nil, false_implies, implies_true, true_and,
      Nat.ofDigitChars_nil]
    constructor
    · rintro rfl
      exact ⟨rfl, hvalue⟩
    · exact And.left
  | c :: digits, value, hvalue => by
    simp only [readDigits, List.forall_mem_cons, Nat.ofDigitChars_cons]
    rw [Nat.mul_comm value 10]
    by_cases hdigit : c.isDigit
    · simp only [hdigit, Bool.not_true, Bool.false_eq_true, if_false, true_and]
      split_ifs with hlarge
      · -- more digits only make the value larger
        have hle := le_ofDigitChars digits (10 * value + (c.toNat - '0'.toNat))
        simp only [false_iff, not_and]
        rintro - rfl
        omega
      · exact readDigits_eq_ok_iff digits _ (Nat.not_lt.1 hlarge)
    · simp [hdigit]

theorem isNumeral_iff {s : String} {value : ℕ} {c : Char} {digits : List Char}
    (h : s.toList = c :: digits) (hc : c ≠ '+') :
    IsNumeral s value ↔
      (∀ d ∈ c :: digits, d.isDigit) ∧ Nat.ofDigitChars 10 (c :: digits) 0 = value := by
  unfold IsNumeral
  rw [h]
  constructor
  · rintro ⟨found, rfl | hsign, -, hdigits⟩
    · exact hdigits
    · exact absurd (List.cons.inj hsign).1 hc
  · exact fun hdigits => ⟨_, .inl rfl, List.cons_ne_nil _ _, hdigits⟩

theorem isNumeral_plus_iff {s : String} {value : ℕ} {digits : List Char}
    (h : s.toList = '+' :: digits) :
    IsNumeral s value ↔
      digits ≠ [] ∧ (∀ d ∈ digits, d.isDigit) ∧ Nat.ofDigitChars 10 digits 0 = value := by
  unfold IsNumeral
  rw [h]
  constructor
  · rintro ⟨found, rfl | hsign, hne, hdigits⟩
    · -- a plus sign is no digit
      exact absurd (hdigits.1 '+' List.mem_cons_self) (by decide)
    · obtain rfl := (List.cons.inj hsign).2
      exact ⟨hne, hdigits⟩
  · exact fun hdigits => ⟨digits, .inr rfl, hdigits⟩

theorem readNat_eq_ok_iff {bound : ℕ} {s : String} {n : ℕ} :
    readNat bound s = .ok n ↔ IsNumeral s n ∧ n ≤ bound := by
  unfold readNat
  split
  · next hs => simp [IsNumeral, hs]
  · next hs => simp [isNumeral_plus_iff hs]
  · next hs => simp [isNumeral_iff hs (by decide)]
  · next _ digits hne hs =>
    rw [isNumeral_plus_iff hs, readDigits_eq_ok_iff digits 0 (Nat.zero_le _), and_assoc, and_assoc]
    exact (and_iff_right hne).symm
  · next digits hnil _ _ hplus =>
    rcases hs : s.toList with _ | ⟨c, digits⟩
    · exact absurd hs hnil
    · have hc : c ≠ '+' := by
        rintro rfl
        exact hplus _ hs
      rw [isNumeral_iff hs hc, readDigits_eq_ok_iff _ 0 (Nat.zero_le _), and_assoc]

/-- Decimal digits with the value, after at most one sign. -/
def IsInteger (s : String) (value : ℤ) : Prop :=
  (∃ n : ℕ, IsNumeral s n ∧ n = value) ∨
    ∃ digits, s.toList = '-' :: digits ∧ digits ≠ [] ∧ (∀ c ∈ digits, c.isDigit) ∧
      -(Nat.ofDigitChars 10 digits 0 : ℤ) = value

theorem not_isNumeral_minus {s : String} {digits : List Char} (h : s.toList = '-' :: digits)
    (n : ℕ) : ¬IsNumeral s n := by
  rw [isNumeral_iff h (by decide)]
  exact fun hdigits => absurd (hdigits.1 '-' List.mem_cons_self) (by decide)

theorem readInt_of_minus (bound : ℕ) {s : String} {digits : List Char}
    (h : s.toList = '-' :: digits) (hne : digits ≠ []) : readInt bound s
      = (readDigits (bound + 1) .tooSmall digits 0).map fun n => -Int.ofNat n := by
  obtain ⟨c, rest, rfl⟩ := List.exists_cons_of_ne_nil hne
  rw [readInt, h]
  rfl

theorem readInt_of_not_minus (bound : ℕ) {s : String} (h : ∀ digits, s.toList ≠ '-' :: digits) :
    readInt bound s = (readNat bound s).map Int.ofNat := by
  unfold readInt readNat
  generalize s.toList = cs at h
  split
  · rfl
  · rfl
  · rfl
  · next digits hne =>
    obtain ⟨c, rest, rfl⟩ := List.exists_cons_of_ne_nil hne
    rfl
  · next digits _ => exact absurd rfl (h digits)
  · next hnil hplus hminus hsign _ =>
    split
    · exact absurd rfl hnil
    · exact absurd rfl hplus
    · exact absurd rfl hminus
    · exact absurd rfl (hsign _)
    · rfl

/-- A text is read as an integer when it is one and its value is within the bounds. -/
theorem readInt_eq_ok_iff {bound : ℕ} {s : String} {n : ℤ} :
    readInt bound s = .ok n ↔ IsInteger s n ∧ -(bound + 1 : ℤ) ≤ n ∧ n ≤ bound := by
  by_cases hminus : ∃ digits, s.toList = '-' :: digits
  · obtain ⟨digits, hs⟩ := hminus
    rcases eq_or_ne digits [] with rfl | hne
    · simp [readInt, hs, IsInteger, not_isNumeral_minus hs]
    · rw [readInt_of_minus bound hs hne, map_eq_ok_iff]
      simp only [readDigits_eq_ok_iff digits 0 (Nat.zero_le _)]
      constructor
      · rintro ⟨m, ⟨hdigits, rfl, hm⟩, rfl⟩
        exact ⟨.inr ⟨digits, hs, hne, hdigits, rfl⟩, by simp only [Int.ofNat_eq_natCast]; omega⟩
      · rintro ⟨⟨m, hm, -⟩ | ⟨found, hfound, -, hdigits, rfl⟩, hlow, -⟩
        · exact absurd hm (not_isNumeral_minus hs m)
        · obtain rfl := (List.cons.inj (hs.symm.trans hfound)).2
          exact ⟨_, ⟨hdigits, rfl, by omega⟩, rfl⟩
  · rw [not_exists] at hminus
    rw [readInt_of_not_minus bound hminus, map_eq_ok_iff]
    simp only [readNat_eq_ok_iff]
    constructor
    · rintro ⟨m, ⟨hm, hle⟩, rfl⟩
      exact ⟨.inl ⟨m, hm, rfl⟩, by simp only [Int.ofNat_eq_natCast]; omega⟩
    · rintro ⟨⟨m, hm, rfl⟩ | ⟨digits, hs, -⟩, -, hle⟩
      · exact ⟨m, ⟨hm, by omega⟩, rfl⟩
      · exact absurd hs (hminus digits)

end Bourse.Text
