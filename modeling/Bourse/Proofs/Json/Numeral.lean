import Bourse.Json.Numeral
import Bourse.Proofs.Number.Shortest

/-!
# Numerals there and back

A finite double is the one its numeral stands for (`toFloat_ofFloat`), and a written numeral is
read as itself (`read_text`).
-/

namespace Bourse.Numeral

open Number Text

theorem ofDecimal_sign (negative : Bool) (m : ℕ) (e : ℤ) :
    ofDecimal negative m e = if negative then -ofDecimal false m e else ofDecimal false m e := by
  cases negative <;> rfl

theorem ofDecimal_congr {m m' : ℕ} {e e' : ℤ} (negative : Bool)
    (h : (m : ℚ) * 10 ^ e = m' * 10 ^ e') : ofDecimal negative m e = ofDecimal negative m' e' := by
  rw [ofDecimal_sign, ofDecimal_sign negative m', ofDecimal_eq, ofDecimal_eq, h]

/-- The digits of a list without the zeros at its end. -/
theorem exists_strip_zeros : ∀ cs : List Char,
    ∃ k, cs.reverse = List.replicate k '0' ++ cs.reverse.dropWhile (· = '0') := by
  intro cs
  generalize cs.reverse = rs
  induction rs with
  | nil => exact ⟨0, rfl⟩
  | cons c rs ih =>
    rw [List.dropWhile_cons]
    split_ifs with hc
    · obtain ⟨k, hk⟩ := ih
      obtain rfl : c = '0' := by simpa using hc
      refine ⟨k + 1, ?_⟩
      rw [List.replicate_succ, List.cons_append, ← hk]
    · exact ⟨0, rfl⟩

/-- A numeral of not too many digits stands for the double nearest to its value. -/
theorem toFloat_eq {n : Numeral} (h : Nat.ofDigitChars 10 n.fraction n.whole < 10 ^ keptDigits) :
    n.toFloat = ofDecimal n.negative (Nat.ofDigitChars 10 n.fraction n.whole)
      (n.exponent.getD 0 - n.fraction.length) := by
  obtain ⟨k, hk⟩ := exists_strip_zeros n.fraction
  generalize hf : (n.fraction.reverse.dropWhile (· = '0')).reverse = fraction
  have hfraction : n.fraction = fraction ++ List.replicate k '0' := by
    rw [← List.reverse_inj, List.reverse_append, List.reverse_replicate, ← hf, List.reverse_reverse]
    exact hk
  have hvalue : Nat.ofDigitChars 10 n.fraction n.whole
      = 10 ^ k * Nat.ofDigitChars 10 fraction n.whole := by
    rw [hfraction, Nat.ofDigitChars_append, Nat.ofDigitChars_replicate_zero]
  have hlt : Nat.ofDigitChars 10 fraction n.whole < 10 ^ keptDigits := by
    refine lt_of_le_of_lt ?_ h
    rw [hvalue]
    exact Nat.le_mul_of_pos_left _ (Nat.pow_pos (by decide))
  have hdropped : (Nat.toDigits 10 (Nat.ofDigitChars 10 fraction n.whole)).length - keptDigits
      = 0 := Nat.sub_eq_zero_of_le ((Nat.length_toDigits_le_iff (by decide) (by decide)).2 hlt)
  simp only [toFloat, hf, hdropped, if_true]
  apply ofDecimal_congr
  rw [hvalue, hfraction, List.length_append, List.length_replicate, Nat.cast_mul, Nat.cast_pow,
    Nat.cast_ofNat, ← zpow_natCast, Nat.cast_add, ← sub_sub, zpow_sub₀ (by norm_num) (_ - _)]
  have := (ten_pow_pos k).ne'
  field_simp

theorem filter_isDigit {cs : List Char} (h : ∀ c ∈ cs, c.isDigit) : cs.filter Char.isDigit = cs :=
  List.filter_eq_self.2 h

/-- The four layouts of a double all have the value of its shortest digits. -/
theorem ofFloat_value (x : Float) :
    ∃ k : ℕ, k ≤ 16 ∧ Nat.ofDigitChars 10 (ofFloat x).fraction (ofFloat x).whole
        = 10 ^ k * (shortest x).digits ∧
      (ofFloat x).exponent.getD 0 - (ofFloat x).fraction.length = (shortest x).exponent - k := by
  simp only [ofFloat]
  generalize shortest x = d
  rw [filter_isDigit (isDigit_toDigits d.digits)]
  have hpos : 0 < (Nat.toDigits 10 d.digits).length := Nat.length_toDigits_pos
  have hvalue : Nat.ofDigitChars 10 (Nat.toDigits 10 d.digits) 0 = d.digits :=
    Nat.ofDigitChars_ten_toDigits
  have hdigit := isDigit_toDigits d.digits
  generalize Nat.toDigits 10 d.digits = digits at hpos hvalue hdigit ⊢
  have hdrop (n : ℕ) : (digits.drop n).filter Char.isDigit = digits.drop n :=
    filter_isDigit fun c hc => hdigit c (List.mem_of_mem_drop hc)
  have hsplit (n : ℕ) : Nat.ofDigitChars 10 (digits.drop n) (Nat.ofDigitChars 10 (digits.take n) 0)
      = d.digits := by
    rw [← Nat.ofDigitChars_append, List.take_append_drop, hvalue]
  have hzeros (n : ℕ) : (List.replicate n '0' ++ digits).filter Char.isDigit
      = List.replicate n '0' ++ digits := by
    refine filter_isDigit fun c hc => ?_
    rcases List.mem_append.1 hc with hc | hc
    · rw [List.eq_of_mem_replicate hc]
      rfl
    · exact hdigit c hc
  split_ifs with h1 h2 h3
  · simp only [Bool.and_eq_true, decide_eq_true_eq] at h1
    refine ⟨d.exponent.toNat + 1, by omega, ?_, ?_⟩
    · change Nat.ofDigitChars 10 ['0'] _ = _
      rw [Nat.ofDigitChars_append, hvalue, Nat.ofDigitChars_replicate_zero]
      change 10 * _ + 0 = _
      rw [add_zero, pow_succ', mul_assoc]
    · change (0 : ℤ) - (1 : ℕ) = _
      omega
  · simp only [Bool.and_eq_true, decide_eq_true_eq] at h1 h2
    refine ⟨0, by omega, ?_, ?_⟩
    · simp only [hdrop, hsplit, pow_zero, one_mul]
    · simp only [hdrop, List.length_drop, Option.getD_none]
      omega
  · simp only [Bool.and_eq_true, decide_eq_true_eq] at h1 h2 h3
    refine ⟨0, by omega, ?_, ?_⟩
    · simp only [hzeros, Nat.ofDigitChars_append, Nat.ofDigitChars_nil,
        Nat.ofDigitChars_replicate_zero, mul_zero, hvalue, pow_zero, one_mul]
    · simp only [hzeros, List.length_append, List.length_replicate, Option.getD_none]
      omega
  · refine ⟨0, by omega, ?_, ?_⟩
    · simp only [hdrop, hsplit, pow_zero, one_mul]
    · simp only [hdrop, List.length_drop, Option.getD_some]
      omega

theorem toFloat_ofFloat {x : Float} (h : x.isFinite) : (ofFloat x).toFloat = x := by
  obtain ⟨hback, hdigits⟩ := shortest_spec h
  obtain ⟨k, hk, hvalue, hexponent⟩ := ofFloat_value x
  have hnegative : (ofFloat x).negative = isNegative x := by
    simp only [ofFloat]
    split_ifs <;> rfl
  have hlt : Nat.ofDigitChars 10 (ofFloat x).fraction (ofFloat x).whole < 10 ^ keptDigits := by
    rw [hvalue]
    calc 10 ^ k * (shortest x).digits ≤ 10 ^ 16 * 10 ^ 17 :=
          Nat.mul_le_mul (Nat.pow_le_pow_right (by decide) hk) hdigits
      _ < 10 ^ keptDigits := by
        rw [← pow_add]
        exact Nat.pow_lt_pow_right (by decide) (by decide)
  rw [toFloat_eq hlt, hvalue, hexponent, hnegative, ofDecimal_sign]
  have hscaled : ofDecimal false (10 ^ k * (shortest x).digits) ((shortest x).exponent - k)
      = x.abs := by
    rw [← hback]
    apply ofDecimal_congr
    have := (ten_pow_pos k).ne'
    rw [zpow_sub₀ (by norm_num), Nat.cast_mul, Nat.cast_pow, Nat.cast_ofNat, ← zpow_natCast]
    field_simp
  rw [hscaled, sign_abs h]

/-- A text that no digit, point or exponent begins, so that a numeral in front of it has ended. -/
def EndsNumeral (rest : List Char) : Prop :=
  ∀ c ∈ rest.head?, c.isDigit = false ∧ c ≠ '.' ∧ c ≠ 'e' ∧ c ≠ 'E'

def exponentChars : Option ℤ → List Char
  | none => []
  | some e => 'e' :: Text.intChars e

theorem head_exponentChars (e : Option ℤ) {rest : List Char} (h : EndsNumeral rest) :
    ∀ c ∈ (exponentChars e ++ rest).head?, c.isDigit = false ∧ c ≠ '.' := by
  intro c hc
  cases e with
  | none => exact ⟨(h c hc).1, (h c hc).2.1⟩
  | some e =>
    obtain rfl : 'e' = c := Option.some.inj hc
    decide

theorem readExponent_append (e : Option ℤ) {rest : List Char} (h : EndsNumeral rest) :
    readExponent (exponentChars e ++ rest) = some (e, rest) := by
  cases e with
  | none =>
    cases rest with
    | nil => rfl
    | cons c rest =>
      obtain ⟨-, -, he, hE⟩ := h c rfl
      change readExponent (c :: rest) = _
      simp [readExponent, he, hE]
  | some e =>
    obtain ⟨ht, hd⟩ := takeWhile_digits (isDigit_toDigits e.natAbs) fun c hc => (h c hc).1
    have hne : (Nat.toDigits 10 e.natAbs).isEmpty = false := by
      simp [List.isEmpty_eq_false_iff, Nat.toDigits_ne_nil]
    change readExponent ('e' :: (Text.intChars e ++ rest)) = _
    unfold Text.intChars
    split_ifs with hneg
    · have hvalue : -(e.natAbs : ℤ) = e := by omega
      simp only [List.cons_append, readExponent, ht, hd, hne, Nat.ofDigitChars_ten_toDigits,
        hvalue, decide_true, Bool.true_or, if_true, Bool.false_eq_true, if_false]
    · have hvalue : (e.natAbs : ℤ) = e := by omega
      obtain ⟨c, cs, hc, hminus, hplus⟩ := exists_digit e.natAbs
      rw [hc] at ht hd hne ⊢
      have hm : ∀ r, c :: (cs ++ rest) = '-' :: r → False := fun _ h => hminus (List.cons.inj h).1
      have hp : ∀ r, c :: (cs ++ rest) = '+' :: r → False := fun _ h => hplus (List.cons.inj h).1
      have hn : Nat.ofDigitChars 10 (c :: cs) 0 = e.natAbs := by
        rw [← hc, Nat.ofDigitChars_ten_toDigits]
      rw [List.cons_append] at ht hd ⊢
      simp only [readExponent, ht, hd, hne, hn, hvalue, decide_true, Bool.true_or, if_true,
        Bool.false_eq_true, if_false]

theorem readUnsigned_text : ∀ (n : Numeral) {rest : List Char}, EndsNumeral rest →
    readUnsigned n.negative (Nat.toDigits 10 n.whole
      ++ ((if n.fraction.isEmpty then [] else '.' :: n.fraction)
        ++ (exponentChars n.exponent ++ rest))) = some (n, rest) := by
  rintro ⟨negative, whole, fraction, e, hfraction⟩ rest h
  have htail := head_exponentChars e h
  have hexp := readExponent_append e h
  have hne : (Nat.toDigits 10 whole).isEmpty = false := by
    simp [List.isEmpty_eq_false_iff, Nat.toDigits_ne_nil]
  simp only
  generalize exponentChars e ++ rest = tail at htail hexp ⊢
  cases fraction with
  | nil =>
    obtain ⟨ht, hd⟩ := takeWhile_digits (isDigit_toDigits whole) fun c hc => (htail c hc).1
    have hpoint : ∀ r, tail = '.' :: r → False := by
      rintro r rfl
      exact (htail '.' rfl).2 rfl
    simp only [List.isEmpty_nil, if_true, List.nil_append, readUnsigned, ht, hd, hne,
      no_leading_zero, Bool.or_self, Bool.false_eq_true, if_false, Nat.ofDigitChars_ten_toDigits,
      readTail, hexp, Option.map_some]
  | cons c cs =>
    obtain ⟨ht, hd⟩ := @takeWhile_digits _ ('.' :: (c :: cs ++ tail)) (isDigit_toDigits whole)
      (by simp)
    obtain ⟨ht', hd'⟩ := takeWhile_digits (List.all_eq_true.1 hfraction) fun c hc => (htail c hc).1
    simp only [List.isEmpty_cons, Bool.false_eq_true, if_false, List.cons_append] at ht hd ht' hd' ⊢
    simp only [readUnsigned, ht, hd, ht', hd', hne, no_leading_zero, Bool.or_self,
      Bool.false_eq_true, if_false, Nat.ofDigitChars_ten_toDigits, List.isEmpty_cons, readTail,
      hexp, Option.map_some]

theorem exists_text (n : Numeral) : ∃ c cs, n.text = c :: cs ∧ (c = '-' ∨ c.isDigit) := by
  obtain ⟨c, cs, hc, -⟩ := exists_digit n.whole
  have hd : c.isDigit := isDigit_toDigits n.whole c (hc ▸ List.mem_cons_self)
  unfold text
  rw [hc]
  cases n.negative
  · exact ⟨c, _, rfl, .inr hd⟩
  · exact ⟨'-', _, rfl, .inl rfl⟩

/-- A written numeral is read as itself. -/
theorem read_text (n : Numeral) {rest : List Char} (h : EndsNumeral rest) :
    read (n.text ++ rest) = some (n, rest) := by
  have hread := readUnsigned_text n h
  have htext : n.text = (if n.negative then ['-'] else []) ++ (Nat.toDigits 10 n.whole
      ++ ((if n.fraction.isEmpty then [] else '.' :: n.fraction) ++ exponentChars n.exponent)) := by
    simp only [text, List.append_assoc]
    rfl
  rw [htext]
  simp only [List.append_assoc]
  cases hneg : n.negative with
  | true =>
    rw [hneg] at hread
    exact hread
  | false =>
    rw [hneg] at hread
    obtain ⟨c, cs, hc, hminus, -⟩ := exists_digit n.whole
    have hm : ∀ r, c :: (cs ++ ((if n.fraction.isEmpty then [] else '.' :: n.fraction)
        ++ (exponentChars n.exponent ++ rest))) = '-' :: r → False :=
      fun _ h => hminus (List.cons.inj h).1
    rw [hc] at hread ⊢
    simp only [Bool.false_eq_true, if_false, List.nil_append, List.cons_append, read] at hread ⊢
    exact hread

end Bourse.Numeral
