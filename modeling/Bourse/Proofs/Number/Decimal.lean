import Bourse.Proofs.Number.Nearest
import Bourse.Proofs.Number.Packing
import Bourse.Proofs.Text.Digits

/-!
# Decimals by their value

The double read from a decimal is the nearest one to its value, whichever way it is computed
(`ofDecimal_eq`). Two decimals of one value are therefore read as one double.
-/

namespace Bourse.Number

open Float.Model Float.Model.UnpackedFloat
open Text (toDigits_bounds)

theorem zero_eq : (0 : Float) = ofParts (.zero .positive) := by
  decide

theorem infinity_eq : infinity = ofParts (.infinity .positive) := by
  decide

theorem pack_overflow (s : Sign) {m : ℕ} {e : ℤ} (h : 0 < m) (he : 972 ≤ e) :
    UnpackedFloat.pack Format.binary64 (.finite s m e h) = packedInfinity Format.binary64 s := by
  have hb : e + Format.binary64.exponentBias + (52 : ℕ) = e + 1075 := by
    simp only [Format.exponentBias]
    omega
  simp only [UnpackedFloat.pack, hb]
  rw [if_pos (by omega)]

theorem ten_pow_pos (e : ℤ) : (0 : ℚ) < 10 ^ e := zpow_pos (by norm_num) e

/-- A decimal lies between the powers of ten of its size. -/
theorem decimal_bounds {m : ℕ} (hm : 0 < m) (e : ℤ) :
    (10 : ℚ) ^ ((Nat.toDigits 10 m).length + e - 1) ≤ m * 10 ^ e ∧
      (m : ℚ) * 10 ^ e < 10 ^ ((Nat.toDigits 10 m).length + e) := by
  obtain ⟨hl, hu⟩ := toDigits_bounds hm
  have hlen : 0 < (Nat.toDigits 10 m).length := Nat.length_toDigits_pos
  have hp := ten_pow_pos e
  constructor
  · rw [show ((Nat.toDigits 10 m).length : ℤ) + e - 1
      = ((Nat.toDigits 10 m).length - 1 : ℕ) + e by omega, zpow_add₀ (by norm_num), zpow_natCast]
    exact mul_le_mul_of_nonneg_right (by exact_mod_cast hl) hp.le
  · rw [zpow_add₀ (by norm_num), zpow_natCast]
    exact mul_lt_mul_of_pos_right (by exact_mod_cast hu) hp

theorem two_pow_le_ten_pow : (2 : ℚ) ^ (1024 : ℤ) ≤ 10 ^ (309 : ℤ) := by
  calc (2 : ℚ) ^ (1024 : ℤ) = (2 ^ (128 : ℤ)) ^ (8 : ℤ) := by rw [← zpow_mul]; rfl
    _ ≤ (35 * 10 ^ (37 : ℤ)) ^ (8 : ℤ) :=
      zpow_le_zpow_left₀ (by norm_num) (by norm_num) (by norm_num)
    _ = 35 ^ (8 : ℤ) * 10 ^ (296 : ℤ) := by rw [mul_zpow, ← zpow_mul]; rfl
    _ ≤ 10 ^ (13 : ℤ) * 10 ^ (296 : ℤ) :=
      mul_le_mul_of_nonneg_right (by norm_num) (ten_pow_pos _).le
    _ = 10 ^ (309 : ℤ) := by rw [← zpow_add₀ (by norm_num)]; rfl

theorem ten_pow_lt_two_pow : (10 : ℚ) ^ (-330 : ℤ) < 2 ^ (-1075 : ℤ) := by
  calc (10 : ℚ) ^ (-330 : ℤ) < 10 ^ (-325 : ℤ) := zpow_lt_zpow_right₀ (by norm_num) (by norm_num)
    _ = (10 ^ (-13 : ℤ)) ^ (25 : ℤ) := by rw [← zpow_mul]; rfl
    _ ≤ (2 ^ (-43 : ℤ)) ^ (25 : ℤ) := zpow_le_zpow_left₀ (by norm_num) (by norm_num) (by norm_num)
    _ = 2 ^ (-1075 : ℤ) := by rw [← zpow_mul]; rfl

theorem nearest_large {v : ℚ} (h : 10 ^ (309 : ℤ) ≤ v) : ofParts (nearest v) = infinity := by
  have hv : 0 < v := lt_of_lt_of_le (ten_pow_pos _) h
  have hlog : 1024 ≤ Int.log 2 v := le_log (le_trans two_pow_le_ten_pow h)
  have hplace : placeExponent v = Int.log 2 v - 52 := by
    unfold placeExponent
    omega
  have hone : 1 ≤ roundEven (v / 2 ^ placeExponent v) := by
    apply le_roundEven
    rw [le_div_iff₀ (two_pow_pos _), Nat.cast_one, one_mul, hplace]
    exact le_trans (zpow_le_zpow_right₀ (by norm_num) (by omega)) (pow_log_le hv)
  simp only [nearest]
  rw [dif_neg (by omega), infinity_eq]
  apply congrArg Float.ofModel
  split_ifs
  · simp only [Float.Model.pack, pack_overflow .positive _ (by omega : 972 ≤ placeExponent v)]
    rfl
  · simp only [Float.Model.pack, pack_overflow .positive _ (by omega : 972 ≤ placeExponent v + 1)]
    rfl

theorem nearest_small {v : ℚ} (h0 : 0 ≤ v) (h : v < 10 ^ (-330 : ℤ)) :
    nearest v = .zero .positive := by
  have hr : roundEven (v / 2 ^ placeExponent v) = 0 := by
    apply roundEven_of_near (div_nonneg h0 (two_pow_pos _).le)
    · have := div_nonneg h0 (two_pow_pos (placeExponent v)).le
      norm_num
      linarith
    · rcases h0.eq_or_lt with rfl | hv
      · norm_num
      · rw [div_lt_iff₀ (two_pow_pos _)]
        have hmin : (2 : ℚ) ^ (-1074 : ℤ) ≤ 2 ^ placeExponent v :=
          zpow_le_zpow_right₀ (by norm_num) (le_max_right _ _)
        have hhalf : (2 : ℚ) ^ (-1075 : ℤ) = 1 / 2 * 2 ^ (-1074 : ℤ) := by
          rw [show (-1075 : ℤ) = -1 + -1074 by norm_num, zpow_add₀ (by norm_num)]
          norm_num
        have hsmall := ten_pow_lt_two_pow
        rw [hhalf] at hsmall
        simp only [Nat.cast_zero, zero_add]
        linarith
  simp only [nearest]
  rw [dif_pos hr]

theorem mul_eq (x y : Float) :
    x * y = ofParts (UnpackedFloat.mul Format.binary64 (parts x) (parts y)) := rfl

theorem div_eq (x y : Float) :
    x / y = ofParts (UnpackedFloat.div Format.binary64 (parts x) (parts y)) := rfl

/-- A positive integer as a significand of fifty-three bits. -/
def normalParts (n : ℕ) (h : 0 < n) : UnpackedFloat :=
  .finite .positive (n * 2 ^ 52 / 2 ^ n.log2) (n.log2 - 52) <| by
    refine Nat.div_pos ?_ (Nat.two_pow_pos _)
    exact le_trans (Nat.log2_self_le h.ne') (Nat.le_mul_of_pos_right n (by decide))

/-- What makes an integer a double: no bit below the fifty-third from the left is set. -/
def FitsDouble (n : ℕ) : Prop :=
  2 ^ n.log2 ∣ n * 2 ^ 52 ∧ n.log2 < 1024

theorem normalParts_spec {n : ℕ} (h : 0 < n) (hn : FitsDouble n) :
    ∃ m q hm, normalParts n h = .finite .positive m q hm ∧ 2 ^ 52 ≤ m ∧
      (m : ℚ) * 2 ^ q = n ∧ Canonical (normalParts n h) ∧ nearest n = normalParts n h := by
  obtain ⟨⟨k, hk⟩, hsize⟩ := hn
  have hp := Nat.two_pow_pos n.log2
  have hm : n * 2 ^ 52 / 2 ^ n.log2 = k := by rw [hk, Nat.mul_div_cancel_left k hp]
  have hlog := Nat.log2_self_le h.ne'
  have hlog' : n < 2 ^ (n.log2 + 1) := Nat.lt_log2_self
  have hl : 2 ^ 52 ≤ k := by
    refine Nat.le_of_mul_le_mul_left ?_ hp
    rw [← hk]
    exact Nat.mul_le_mul_right _ hlog
  have hu : k < 2 ^ 53 := by
    refine Nat.lt_of_mul_lt_mul_left (a := 2 ^ n.log2) ?_
    rw [← hk]
    rw [pow_succ] at hlog'
    omega
  have hv : (k : ℚ) * 2 ^ ((n.log2 : ℤ) - 52) = n := by
    have hkq : (n : ℚ) * 2 ^ 52 = 2 ^ n.log2 * k := by exact_mod_cast hk
    rw [zpow_sub₀ (by norm_num), zpow_natCast, mul_div_assoc', mul_comm (k : ℚ), ← hkq]
    norm_num
  have hcan : Canonical (normalParts n h) := by
    simp only [normalParts, hm, Canonical]
    omega
  refine ⟨_, _, _, rfl, ?_, ?_, hcan, ?_⟩
  · rw [hm]
    exact hl
  · rw [hm]
    exact hv
  · rw [← hv]
    simp only [normalParts, hm]
    exact nearest_exact _ hu (by omega) (.inl hl)

theorem fitsDouble_of_lt {n : ℕ} (h : 0 < n) (hu : n < 2 ^ 53) : FitsDouble n := by
  have hlog : n.log2 < 53 := (Nat.log2_lt h.ne').2 hu
  exact ⟨Dvd.dvd.mul_left (pow_dvd_pow 2 (by omega)) n, by omega⟩

theorem fitsDouble_power : ∀ e : Fin 23, FitsDouble (10 ^ e.val) := by
  unfold FitsDouble
  decide +kernel

theorem power_eq : ∀ e : Fin 23, getElem Float.exactlyRepresentablePowersOfTen e.val e.isLt
    = ofParts (normalParts (10 ^ e.val) (Nat.pow_pos (by decide))) := by
  decide +kernel

/-- The tabulated powers of ten are exact. -/
theorem parts_power {e : ℕ} (he : e < Float.exactlyRepresentablePowersOfTen.size) :
    ∃ m q h, parts Float.exactlyRepresentablePowersOfTen[e] = .finite .positive m q h ∧
      2 ^ 52 ≤ m ∧ (m : ℚ) * 2 ^ q = 10 ^ e := by
  obtain ⟨m, q, h, hp, hl, hv, hc, -⟩ := normalParts_spec _ (fitsDouble_power ⟨e, he⟩)
  refine ⟨m, q, h, ?_, hl, by exact_mod_cast hv⟩
  have hpow : Float.exactlyRepresentablePowersOfTen[e] = _ := power_eq ⟨e, he⟩
  rw [hpow, parts_ofParts hc, hp]

theorem round_integer {n : ℕ} (h : 0 < n) (hu : n < 2 ^ 53) :
    UnpackedFloat.round Format.binary64 .positive n 0 = nearest n := by
  have hlog : n.log2 < 53 := (Nat.log2_lt h.ne').2 hu
  obtain ⟨hl, -⟩ := log2_bounds h.ne'
  have ht : Format.binary64.targetExponent (totalExponent n 0) = n.log2 - 52 := by
    rw [targetExponent_eq]
    omega
  simp only [UnpackedFloat.round, decreaseExponent, ht]
  have hpos : (0 : ℚ) < n := by exact_mod_cast h
  refine roundWithAccuracy_eq hpos ?_ ?_
  · have hv : (n : ℚ) / 2 ^ (0 - ((0 - ((n.log2 : ℤ) - 52)).toNat : ℤ))
        = (n <<< (0 - ((n.log2 : ℤ) - 52)).toNat : ℕ) := by
      rw [Nat.shiftLeft_eq, zero_sub, zpow_neg, zpow_natCast]
      push_cast
      rw [div_inv_eq_mul]
    rw [hv]
    exact represents_exact _
  · refine le_trans ?_ (le_placeExponent hl)
    omega

theorem toFloat_eq {n : ℕ} (h : 0 < n) (hu : n < 2 ^ 53) :
    n.toUInt64.toFloat = ofParts (nearest n) := by
  have hn : n.toUInt64.toNat = n := by
    rw [Nat.toUInt64, UInt64.toNat_ofNat']
    omega
  change ofParts (UnpackedFloat.normalize Format.binary64 (n.toUInt64.toNat : ℤ) 0 .positive) = _
  rw [hn, UnpackedFloat.normalize, Int.compare_eq_gt.2 (by omega)]
  simp only [Int.toNat_natCast, round_integer h hu]

/-- Reading with a small significand and power multiplies or divides two doubles. -/
theorem ofScientific_fast {m e : ℕ} (hm : 0 < m) (hm' : m < 2 ^ 53) (he : e ≤ 22) (s : Bool) :
    Float.ofScientific m s e = ofParts (nearest (if s then m / 10 ^ e else m * 10 ^ e)) := by
  obtain ⟨a, p, ha, hpa, hla, hva, hca, hna⟩ := normalParts_spec hm (fitsDouble_of_lt hm hm')
  have he' : e < Float.exactlyRepresentablePowersOfTen.size := Nat.lt_succ_of_le he
  obtain ⟨b, q, hb, hpb, hlb, hvb⟩ := parts_power he'
  have hpm : parts m.toUInt64.toFloat = .finite .positive a p ha := by
    rw [toFloat_eq hm hm', hna, parts_ofParts hca, hpa]
  have hab : 2 ^ 52 ≤ a * b := le_trans hla (Nat.le_mul_of_pos_right a hb)
  rw [Float.ofScientific, dif_pos ⟨hm', he⟩]
  simp only [mul_eq, div_eq, hpm, hpb]
  cases s
  · simp only [Bool.false_eq_true, if_false]
    rw [mul_finite ha hb hab, hva, hvb]
  · simp only [if_true]
    rw [div_finite, hva, hvb]

theorem mul_power {m : ℕ} (hm : 0 < m) (e : ℕ) (h h') :
    UnpackedFloat.mul Format.binary64
      (.finite .positive (m <<< Format.binary64.mantissaBits) (-Format.binary64.mantissaBits) h)
      (.finite .positive (10 ^ e) 0 h') = nearest (m * 10 ^ e) := by
  rw [mul_finite]
  · congr 1
    rw [Nat.shiftLeft_eq, zpow_zero, mul_one, zpow_neg, zpow_natCast]
    push_cast
    rw [mul_assoc (m : ℚ), mul_inv_cancel₀ (by norm_num), mul_one]
  · change 2 ^ 52 ≤ m <<< 53 * 10 ^ e
    rw [Nat.shiftLeft_eq]
    calc 2 ^ 52 ≤ 1 * 2 ^ 53 * 1 := by norm_num
      _ ≤ m * 2 ^ 53 * 10 ^ e :=
        Nat.mul_le_mul (Nat.mul_le_mul_right _ hm) (Nat.pow_pos (by decide))

theorem ofScientific_slow {m e : ℕ} (hm : 0 < m) (h : ¬(m < 2 ^ 53 ∧ e ≤ 22)) (s : Bool)
    (hsize : e ≤ 2048 + if s then m.log2 else 0) :
    Float.ofScientific m s e = ofParts (nearest (if s then m / 10 ^ e else m * 10 ^ e)) := by
  have h2 : (2 : ℤ) ^ Format.binary64.exponentBits = 2048 := rfl
  rw [Float.ofScientific, dif_neg h]
  change ofParts (UnpackedFloat.ofScientific _ _ _) = _
  simp only [UnpackedFloat.ofScientific, dif_neg hm.ne', h2]
  cases s
  · simp only [Bool.false_eq_true, if_false, Int.ofNat_eq_natCast] at hsize ⊢
    rw [if_neg (by omega), if_neg (by omega), if_pos (by omega)]
    simp only [Int.toNat_natCast, mul_power hm]
  · simp only [if_true, Int.negOfNat_eq, Int.ofNat_eq_natCast] at hsize ⊢
    rw [if_neg (by omega), if_neg (by omega)]
    by_cases he : e = 0
    · subst he
      rw [if_pos (by omega)]
      simp only [Nat.cast_zero, neg_zero, Int.toNat_zero]
      rw [mul_power hm 0, pow_zero, mul_one, div_one]
    · rw [if_neg (by omega), div_finite]
      simp only [neg_neg, Int.toNat_natCast, zpow_zero, mul_one, Nat.cast_pow, Nat.cast_ofNat]

/-- The double read from a decimal depends on the value of the decimal alone. -/
theorem ofDecimal_eq (m : ℕ) (e : ℤ) :
    ofDecimal false m e = ofParts (nearest (m * 10 ^ e)) := by
  simp only [ofDecimal, Bool.false_eq_true, if_false]
  rcases Nat.eq_zero_or_pos m with rfl | hm
  · have h0 : nearest 0 = .zero .positive := nearest_small le_rfl (ten_pow_pos _)
    rw [if_pos rfl, Nat.cast_zero, zero_mul, h0, zero_eq]
  · obtain ⟨hl, hu⟩ := decimal_bounds hm e
    have hlen : (Nat.toDigits 10 m).length - 1 ≤ m.log2 :=
      (Nat.le_log2 hm.ne').2 (le_trans (Nat.pow_le_pow_left (by decide) _) (toDigits_bounds hm).1)
    have hpos : 0 < (Nat.toDigits 10 m).length := Nat.length_toDigits_pos
    rw [if_neg hm.ne']
    split_ifs with h1 h2
    · refine (nearest_large (le_trans ?_ hl)).symm
      exact zpow_le_zpow_right₀ (by norm_num) (by omega)
    · rw [nearest_small (mul_nonneg (Nat.cast_nonneg m) (ten_pow_pos e).le), zero_eq]
      refine lt_of_lt_of_le hu ?_
      exact zpow_le_zpow_right₀ (by norm_num) (by omega)
    · have hvalue : (if decide (e < 0) then (m : ℚ) / 10 ^ e.natAbs else m * 10 ^ e.natAbs)
          = m * 10 ^ e := by
        rcases lt_or_ge e 0 with he | he
        · rw [if_pos (decide_eq_true he), div_eq_mul_inv, ← zpow_natCast, ← zpow_neg]
          congr 2
          omega
        · rw [if_neg (by simpa using he), ← zpow_natCast]
          congr 2
          omega
      rw [← hvalue]
      by_cases hfast : m < 2 ^ 53 ∧ e.natAbs ≤ 22
      · exact ofScientific_fast hm hfast.1 hfast.2 _
      · refine ofScientific_slow hm hfast _ ?_
        split_ifs with he
        · omega
        · have := of_decide_eq_false (Bool.not_eq_true _ ▸ he)
          omega

end Bourse.Number
