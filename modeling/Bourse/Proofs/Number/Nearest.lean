import Mathlib

/-!
# The nearest double

`nearest v` is the double nearest to a positive rational, ties to even, as a significand and a
binary exponent. Rounding by shifts with a round bit and a sticky bit computes it
(`roundWithAccuracy_eq`), so what such a rounding gives depends on the exact value alone.
-/

namespace Bourse.Number

open Float.Model Float.Model.UnpackedFloat

/-- The integer nearest to a rational that is not negative, ties to even. -/
def roundEven (q : ℚ) : ℕ :=
  if q - ⌊q⌋₊ < 1 / 2 then ⌊q⌋₊
  else if q - ⌊q⌋₊ = 1 / 2 then ⌊q⌋₊ + ⌊q⌋₊ % 2
  else ⌊q⌋₊ + 1

/-- The exponent of the last place of the doubles around `v`. -/
def placeExponent (v : ℚ) : ℤ :=
  max (Int.log 2 v - 52) (-1074)

def nearest (v : ℚ) : UnpackedFloat :=
  let n := roundEven (v / 2 ^ placeExponent v)
  if h : n = 0 then .zero .positive
  else if n < 2 ^ 53 then .finite .positive n (placeExponent v) (Nat.pos_of_ne_zero h)
  else .finite .positive (2 ^ 52) (placeExponent v + 1) (by decide)

theorem two_pow_pos (e : ℤ) : (0 : ℚ) < 2 ^ e := zpow_pos (by norm_num) e

theorem two_pow_ne_zero (e : ℤ) : (2 : ℚ) ^ e ≠ 0 := (two_pow_pos e).ne'

theorem floor_eq {q : ℚ} {n : ℕ} (hl : (n : ℚ) ≤ q) (hu : q < n + 1) : ⌊q⌋₊ = n :=
  (Nat.floor_eq_iff (le_trans (Nat.cast_nonneg n) hl)).2 ⟨hl, hu⟩

theorem roundEven_of_near {q : ℚ} {n : ℕ} (h0 : 0 ≤ q) (hl : (n : ℚ) - 1 / 2 < q)
    (hu : q < n + 1 / 2) : roundEven q = n := by
  rcases le_or_gt (n : ℚ) q with h | h
  · rw [roundEven, floor_eq h (by linarith), if_pos (by linarith)]
  · cases n with
    | zero => exact absurd h0 (not_le.2 (by simpa using h))
    | succ m =>
      have hm : ((m + 1 : ℕ) : ℚ) = m + 1 := by push_cast; ring
      rw [hm] at h hl
      rw [roundEven, floor_eq (by linarith) h, if_neg (by linarith), if_neg (by linarith)]

/-- Rounding stays between two integers that the rational lies between. -/
theorem roundEven_le {q : ℚ} {n : ℕ} (h0 : 0 ≤ q) (h : q < n) : roundEven q ≤ n := by
  have hf : ⌊q⌋₊ < n := (Nat.floor_lt h0).2 h
  unfold roundEven
  split_ifs <;> omega

theorem le_roundEven {q : ℚ} {n : ℕ} (h : (n : ℚ) ≤ q) : n ≤ roundEven q := by
  have hf : n ≤ ⌊q⌋₊ := Nat.le_floor h
  unfold roundEven
  split_ifs <;> omega

/-- What a significand with its two residual bits says about a value. -/
def Represents (em : ExtendedMantissa) (q : ℚ) : Prop :=
  match em.roundBit, em.stickyBit with
  | false, false => q = em.mantissa
  | false, true => (em.mantissa : ℚ) < q ∧ q < em.mantissa + 1 / 2
  | true, false => q = em.mantissa + 1 / 2
  | true, true => (em.mantissa : ℚ) + 1 / 2 < q ∧ q < em.mantissa + 1

theorem Represents.bounds {em : ExtendedMantissa} {q : ℚ} (h : Represents em q) :
    (em.mantissa : ℚ) ≤ q ∧ q < em.mantissa + 1 := by
  rcases em with ⟨m, r, s⟩
  cases r <;> cases s <;> simp only [Represents] at h ⊢ <;> constructor <;> linarith

theorem Represents.roundedMantissa {em : ExtendedMantissa} {q : ℚ} (h : Represents em q) :
    em.roundedMantissa = roundEven q := by
  have hf := floor_eq h.bounds.1 h.bounds.2
  rcases em with ⟨m, r, s⟩
  simp only at hf
  rw [roundEven, hf]
  cases r <;> cases s <;> simp only [Represents] at h <;>
    simp only [ExtendedMantissa.roundedMantissa, ExtendedMantissa.accuracy,
      Accuracy.roundToNearestEven]
  · rw [if_pos (by linarith)]
  · rw [if_pos (by linarith)]
  · rw [if_neg (by linarith), if_pos (by linarith)]
  · rw [if_neg (by linarith), if_neg (by linarith)]

theorem Represents.shiftRightOne {em : ExtendedMantissa} {q : ℚ} (h : Represents em q) :
    Represents em.shiftRightOne (q / 2) := by
  rcases em with ⟨m, r, s⟩
  have hm : (m : ℚ) = 2 * (m / 2 : ℕ) + (m % 2 : ℕ) := by exact_mod_cast (Nat.div_add_mod m 2).symm
  rcases Nat.mod_two_eq_zero_or_one m with hr | hr <;> rw [hr] at hm <;>
    cases r <;> cases s <;>
    simp only [Represents, ExtendedMantissa.shiftRightOne, hr, bne_self_eq_false, Bool.or_self,
      Bool.or_true, Bool.or_false, Nat.reduceBNe] at h ⊢ <;>
    push_cast at hm <;> first | constructor <;> linarith | linarith

theorem Represents.shiftRight {em : ExtendedMantissa} {q : ℚ} (h : Represents em q) (k : ℕ) :
    Represents (em >>> k) (q / 2 ^ k) := by
  change Represents (k.repeat ExtendedMantissa.shiftRightOne em) _
  induction k with
  | zero => simpa [Nat.repeat] using h
  | succ k ih =>
    rw [Nat.repeat, pow_succ, ← div_div]
    exact ih.shiftRightOne

theorem represents_exact (m : ℕ) :
    Represents (.ofMantissaAndAccuracy m .exact) (m : ℚ) := by
  simp [Represents, ExtendedMantissa.ofMantissaAndAccuracy]

theorem log_eq {v : ℚ} {k : ℤ} (hl : 2 ^ k ≤ v) (hu : v < 2 ^ (k + 1)) : Int.log 2 v = k := by
  have hv : 0 < v := lt_of_lt_of_le (two_pow_pos k) hl
  have h1 := (Int.zpow_le_iff_le_log (b := 2) (by decide) hv).1 (by exact_mod_cast hl)
  have h2 := (Int.lt_zpow_iff_log_lt (b := 2) (by decide) hv).1 (by exact_mod_cast hu)
  omega

theorem le_log {v : ℚ} {k : ℤ} (h : 2 ^ k ≤ v) : k ≤ Int.log 2 v :=
  (Int.zpow_le_iff_le_log (b := 2) (by decide) (lt_of_lt_of_le (two_pow_pos k) h)).1
    (by exact_mod_cast h)

theorem log_lt {v : ℚ} {k : ℤ} (hv : 0 < v) (h : v < 2 ^ k) : Int.log 2 v < k :=
  (Int.lt_zpow_iff_log_lt (b := 2) (by decide) hv).1 (by exact_mod_cast h)

theorem pow_log_le {v : ℚ} (hv : 0 < v) : 2 ^ Int.log 2 v ≤ v := by
  exact_mod_cast Int.zpow_log_le_self (b := 2) (by decide) hv

theorem lt_pow_log (v : ℚ) : v < 2 ^ (Int.log 2 v + 1) := by
  exact_mod_cast Int.lt_zpow_succ_log_self (b := 2) (by decide) v

theorem log2_bounds {m : ℕ} (hm : m ≠ 0) :
    (2 : ℚ) ^ (m.log2 : ℤ) ≤ m ∧ (m : ℚ) + 1 ≤ 2 ^ ((m.log2 : ℤ) + 1) := by
  have h1 : 2 ^ m.log2 ≤ m := Nat.log2_self_le hm
  have h2 : m + 1 ≤ 2 ^ (m.log2 + 1) := Nat.lt_log2_self
  refine ⟨by rw [zpow_natCast]; exact_mod_cast h1, ?_⟩
  rw [show (m.log2 : ℤ) + 1 = ((m.log2 + 1 : ℕ) : ℤ) by push_cast; ring, zpow_natCast]
  exact_mod_cast h2

theorem targetExponent_eq (m : ℕ) (e : ℤ) :
    Format.binary64.targetExponent (totalExponent m e) = max (m.log2 + e - 52) (-1074) := by
  simp only [Format.targetExponent, totalExponent, Format.mantissaBits, Format.minExponent]
  norm_num
  omega

/-- The place that a significand in front of a value is shifted to is that of the value. -/
theorem targetExponent_of_floor {v : ℚ} {m : ℕ} {e : ℤ} (hv : 0 < v) (hl : m * 2 ^ e ≤ v)
    (hu : v < (m + 1) * 2 ^ e) (he : e ≤ placeExponent v) :
    Format.binary64.targetExponent (totalExponent m e) = placeExponent v := by
  rw [targetExponent_eq, placeExponent]
  have hp := two_pow_pos e
  rcases Nat.eq_zero_or_pos m with rfl | hm
  · have hlog : Int.log 2 v < e := log_lt hv (by simpa using hu)
    have : ((0 : ℕ).log2 : ℤ) = 0 := rfl
    unfold placeExponent at he
    omega
  · obtain ⟨h1, h2⟩ := log2_bounds (Nat.pos_iff_ne_zero.1 hm)
    have hlog : Int.log 2 v = m.log2 + e := by
      apply log_eq
      · rw [zpow_add₀ (by norm_num)]
        exact le_trans (mul_le_mul_of_nonneg_right h1 hp.le) hl
      · rw [show (m.log2 : ℤ) + e + 1 = (m.log2 + 1) + e by ring, zpow_add₀ (by norm_num)]
        exact lt_of_lt_of_le hu (mul_le_mul_of_nonneg_right h2 hp.le)
    rw [hlog]

theorem shiftToExponent_eq (m : ℕ) {e t : ℤ} (a : Accuracy) (h : e ≤ t) :
    shiftToExponent m e a t
      = (ExtendedMantissa.ofMantissaAndAccuracy m a >>> (t - e).toNat, t) := by
  simp only [shiftToExponent, Prod.mk.injEq, true_and]
  omega

/-- A value scaled to its place has at most fifty-three bits before the point. -/
theorem scaled_lt {v : ℚ} : v / 2 ^ placeExponent v < (2 ^ 53 : ℕ) := by
  have h1 := lt_pow_log v
  have h2 : Int.log 2 v + 1 ≤ 53 + placeExponent v := by unfold placeExponent; omega
  rw [div_lt_iff₀ (two_pow_pos _)]
  calc v < 2 ^ (Int.log 2 v + 1) := h1
    _ ≤ 2 ^ (53 + placeExponent v) := zpow_le_zpow_right₀ (by norm_num) h2
    _ = ((2 ^ 53 : ℕ) : ℚ) * 2 ^ placeExponent v := by rw [zpow_add₀ (by norm_num)]; norm_num

theorem shift_small {n : ℕ} {e : ℤ} (hn : n < 2 ^ 53) (he : -1074 ≤ e) :
    shiftToTargetExponent Format.binary64 n e .exact = (⟨n, false, false⟩, e) := by
  have hlog : n.log2 ≤ 52 := by
    rcases Nat.eq_zero_or_pos n with rfl | h
    · decide
    · have := (Nat.log2_lt (Nat.pos_iff_ne_zero.1 h)).2 hn
      omega
  have ht : Format.binary64.targetExponent (totalExponent n e) ≤ e := by
    rw [targetExponent_eq]
    omega
  have hk : (Format.binary64.targetExponent (totalExponent n e) - e).toNat = 0 := by omega
  simp [shiftToTargetExponent, shiftToExponent, hk, HShiftRight.hShiftRight, Nat.repeat,
    ExtendedMantissa.ofMantissaAndAccuracy]

theorem shift_carry {e : ℤ} (he : -1074 ≤ e) :
    shiftToTargetExponent Format.binary64 (2 ^ 53) e .exact = (⟨2 ^ 52, false, false⟩, e + 1) := by
  have ht : Format.binary64.targetExponent (totalExponent (2 ^ 53) e) = e + 1 := by
    rw [targetExponent_eq, Nat.log2_two_pow]
    push_cast
    omega
  rw [shiftToTargetExponent, ht, shiftToExponent_eq _ _ (by omega)]
  rw [show (e + 1 - e).toNat = 1 by omega]
  rfl

/-- Rounding by shifts gives the nearest double of the value that is represented. -/
theorem roundWithAccuracy_eq {v : ℚ} {m : ℕ} {e : ℤ} {a : Accuracy} (hv : 0 < v)
    (h : Represents (.ofMantissaAndAccuracy m a) (v / 2 ^ e)) (he : e ≤ placeExponent v) :
    roundWithAccuracy Format.binary64 .positive m e a = nearest v := by
  have hp := two_pow_pos e
  have hm : (ExtendedMantissa.ofMantissaAndAccuracy m a).mantissa = m := by
    rcases a with _ | o
    · rfl
    · cases o <;> rfl
  have hb := h.bounds
  rw [hm, le_div_iff₀ hp, div_lt_iff₀ hp] at hb
  have hmin : -1074 ≤ placeExponent v := le_max_right _ _
  have hr : (ExtendedMantissa.ofMantissaAndAccuracy m a >>>
      (placeExponent v - e).toNat).roundedMantissa = roundEven (v / 2 ^ placeExponent v) := by
    have hs := (h.shiftRight (placeExponent v - e).toNat).roundedMantissa
    rw [hs, div_div, ← zpow_natCast, ← zpow_add₀ (by norm_num)]
    congr 3
    omega
  have hle : roundEven (v / 2 ^ placeExponent v) ≤ 2 ^ 53 :=
    roundEven_le (div_nonneg hv.le (two_pow_pos _).le) scaled_lt
  rw [roundWithAccuracy, shiftToTargetExponent, targetExponent_of_floor hv hb.1 hb.2 he,
    shiftToExponent_eq _ _ he]
  dsimp only
  rw [hr, nearest]
  generalize roundEven (v / 2 ^ placeExponent v) = n at hle
  by_cases hn : n < 2 ^ 53
  · rw [shift_small hn hmin]
    simp only [hn, if_true]
  · obtain rfl : n = 2 ^ 53 := by omega
    rw [shift_carry hmin]
    rfl

theorem nearest_same_place {c : ℚ} {M : ℕ} {E : ℤ} (hM : 0 < M) (hM' : M < 2 ^ 53) (hc : 0 ≤ c)
    (hE : placeExponent c = E) (hl : ((M : ℚ) - 1 / 2) * 2 ^ E < c)
    (hu : c < (M + 1 / 2) * 2 ^ E) : nearest c = .finite .positive M E hM := by
  have hp := two_pow_pos E
  have hr : roundEven (c / 2 ^ E) = M :=
    roundEven_of_near (div_nonneg hc hp.le) ((lt_div_iff₀ hp).2 hl) ((div_lt_iff₀ hp).2 hu)
  simp only [nearest, hE, hr]
  rw [dif_neg hM.ne', if_pos hM']

theorem nearest_below {c : ℚ} {E : ℤ} (hc : 0 ≤ c) (hE : placeExponent c = E - 1)
    (hl : ((2 : ℚ) ^ 53 - 1 / 2) * 2 ^ (E - 1) < c) (hu : c < (2 ^ 53 + 1 / 2) * 2 ^ (E - 1)) :
    nearest c = .finite .positive (2 ^ 52) E (by decide) := by
  have hp := two_pow_pos (E - 1)
  have hr : roundEven (c / 2 ^ (E - 1)) = 2 ^ 53 := by
    apply roundEven_of_near (div_nonneg hc hp.le)
    · rw [lt_div_iff₀ hp]
      exact_mod_cast hl
    · rw [div_lt_iff₀ hp]
      exact_mod_cast hu
  simp only [nearest, hE, hr]
  rw [dif_neg (by decide), if_neg (by decide)]
  congr 1
  omega

/-- A value just below the least significand of an exponent is rounded up to it from the finer grid
beneath. -/
theorem nearest_beneath {c : ℚ} {E : ℤ} (hE : -1074 < E) (hlow : c < 2 ^ 52 * 2 ^ E)
    (hl : (2 : ℚ) ^ 52 * 2 ^ E - 2 ^ 52 * 2 ^ E / 2 ^ 54 < c) :
    nearest c = .finite .positive (2 ^ 52) E (by decide) := by
  have hp := two_pow_pos E
  have hhalf : (2 : ℚ) ^ (E - 1) = 2 ^ E / 2 := by
    rw [zpow_sub₀ (by norm_num), zpow_one]
  have hc : 0 < c := by
    norm_num at hl
    linarith
  have hplace : placeExponent c = E - 1 := by
    have htop : c < 2 ^ (E + 52) := by
      rw [zpow_add₀ (by norm_num)]
      linarith
    have hbottom : 2 ^ (E + 51) ≤ c := by
      rw [zpow_add₀ (by norm_num)]
      norm_num at hl ⊢
      linarith
    have hlt := log_lt hc htop
    have hle := le_log hbottom
    unfold placeExponent
    omega
  apply nearest_below hc.le hplace
  · rw [hhalf]
    norm_num at hl ⊢
    linarith
  · rw [hhalf]
    norm_num at hlow ⊢
    linarith

/-- A value that is closer to a double than a part in `2 ^ 54` of it rounds to that double. -/
theorem nearest_of_close {c : ℚ} {M : ℕ} {E : ℤ} (hM : 0 < M) (hM' : M < 2 ^ 53) (hE : -1074 ≤ E)
    (hn : 2 ^ 52 ≤ M ∨ E = -1074) (hl : (M : ℚ) * 2 ^ E - M * 2 ^ E / 2 ^ 54 < c)
    (hu : c < M * 2 ^ E + M * 2 ^ E / 2 ^ 54) : nearest c = .finite .positive M E hM := by
  have hp := two_pow_pos E
  have hMq : (0 : ℚ) < M := by exact_mod_cast hM
  have hMq' : (M : ℚ) + 1 ≤ 2 ^ 53 := by exact_mod_cast hM'
  have hc : 0 < c := by
    refine lt_of_le_of_lt ?_ hl
    have := mul_pos hMq hp
    linarith
  have hmid : (M : ℚ) / 2 ^ 54 < 1 / 2 := by linarith
  have hl' : ((M : ℚ) - 1 / 2) * 2 ^ E < c := by
    refine lt_trans ?_ hl
    have := mul_lt_mul_of_pos_right hmid hp
    linarith
  have hu' : c < ((M : ℚ) + 1 / 2) * 2 ^ E := by
    refine lt_trans hu ?_
    have := mul_lt_mul_of_pos_right hmid hp
    linarith
  have htop : c < 2 ^ (E + 53) := by
    rw [zpow_add₀ (by norm_num)]
    have := mul_le_mul_of_nonneg_right hMq' hp.le
    norm_num at this ⊢
    linarith
  have hlog := log_lt hc htop
  by_cases hplace : 2 ^ (E + 52) ≤ c ∨ E = -1074
  · refine nearest_same_place hM hM' hc.le ?_ hl' hu'
    unfold placeExponent
    rcases hplace with h | h
    · have := le_log h
      omega
    · omega
  · -- Only the least significand is that close to a value below all of its exponent.
    obtain ⟨hlow, hmin⟩ := not_or.1 hplace
    rw [not_le, zpow_add₀ (by norm_num)] at hlow
    have hM2 : 2 ^ 52 ≤ M := hn.resolve_right hmin
    obtain rfl : M = 2 ^ 52 := by
      by_contra hne
      have hgt : (2 : ℚ) ^ 52 + 1 ≤ M := by exact_mod_cast (by omega : 2 ^ 52 + 1 ≤ M)
      have := mul_le_mul_of_nonneg_right hgt hp.le
      norm_num at this hlow
      linarith
    push_cast at hl
    refine nearest_beneath (by omega) ?_ hl
    norm_num at hlow ⊢
    linarith

theorem nearest_exact {M : ℕ} {E : ℤ} (hM : 0 < M) (hM' : M < 2 ^ 53) (hE : -1074 ≤ E)
    (hn : 2 ^ 52 ≤ M ∨ E = -1074) : nearest (M * 2 ^ E) = .finite .positive M E hM := by
  have hpos : (0 : ℚ) < M * 2 ^ E / 2 ^ 54 :=
    div_pos (mul_pos (by exact_mod_cast hM) (two_pow_pos E)) (by norm_num)
  exact nearest_of_close hM hM' hE hn (by linarith) (by linarith)

theorem le_placeExponent {v : ℚ} {k : ℤ} (h : 2 ^ k ≤ v) :
    max (k - 52) (-1074) ≤ placeExponent v := by
  have := le_log h
  unfold placeExponent
  omega

theorem mul_finite {m n : ℕ} {d e : ℤ} (hm : 0 < m) (hn : 0 < n) (h : 2 ^ 52 ≤ m * n) :
    mul Format.binary64 (.finite .positive m d hm) (.finite .positive n e hn)
      = nearest (m * 2 ^ d * (n * 2 ^ e)) := by
  have hv : (m : ℚ) * 2 ^ d * (n * 2 ^ e) = ((m * n : ℕ) : ℚ) * 2 ^ (d + e) := by
    rw [zpow_add₀ (by norm_num)]
    push_cast
    ring
  have hmn : (0 : ℚ) < (m * n : ℕ) := by exact_mod_cast Nat.mul_pos hm hn
  rw [hv]
  refine roundWithAccuracy_eq (mul_pos hmn (two_pow_pos _)) ?_ ?_
  · rw [mul_div_assoc, div_self (two_pow_ne_zero _), mul_one]
    exact represents_exact _
  · refine le_trans (by omega) (le_placeExponent (k := 52 + (d + e)) ?_)
    rw [zpow_add₀ (by norm_num)]
    refine mul_le_mul_of_nonneg_right ?_ (two_pow_pos _).le
    exact_mod_cast h

theorem represents_quotient (m : ℕ) {n : ℕ} (hn : 0 < n) :
    Represents (.ofMantissaAndAccuracy (m / n) (accuracyOfFraction (m % n) n)) ((m : ℚ) / n) := by
  have hq : (0 : ℚ) < n := by exact_mod_cast hn
  have hm : (m : ℚ) / n = (m / n : ℕ) + (m % n : ℕ) / n := by
    have : (m : ℚ) = n * (m / n : ℕ) + (m % n : ℕ) := by exact_mod_cast (Nat.div_add_mod m n).symm
    rw [this, add_div, mul_div_cancel_left₀ _ hq.ne']
  have hr : ((m % n : ℕ) : ℚ) / n < 1 := by
    rw [div_lt_one hq]
    exact_mod_cast Nat.mod_lt m hn
  generalize m / n = k at hm ⊢
  rw [hm, accuracyOfFraction]
  split_ifs with h0
  · rw [h0]
    simp [Represents, ExtendedMantissa.ofMantissaAndAccuracy]
  · have hpos : (0 : ℚ) < (m % n : ℕ) / n :=
      div_pos (by exact_mod_cast Nat.pos_of_ne_zero h0) hq
    rcases lt_trichotomy (2 * (m % n)) n with h | h | h
    · rw [Nat.compare_eq_lt.2 h]
      have : ((m % n : ℕ) : ℚ) / n < 1 / 2 := by
        rw [div_lt_div_iff₀ hq (by norm_num)]
        exact_mod_cast (by omega : m % n * 2 < 1 * n)
      simp only [Represents, ExtendedMantissa.ofMantissaAndAccuracy]
      constructor <;> linarith
    · rw [Nat.compare_eq_eq.2 h]
      have : ((m % n : ℕ) : ℚ) / n = 1 / 2 := by
        rw [div_eq_div_iff hq.ne' (by norm_num)]
        exact_mod_cast (by omega : m % n * 2 = 1 * n)
      simp [Represents, ExtendedMantissa.ofMantissaAndAccuracy, this]
    · rw [Nat.compare_eq_gt.2 h]
      have : (1 : ℚ) / 2 < (m % n : ℕ) / n := by
        rw [div_lt_div_iff₀ (by norm_num) hq]
        exact_mod_cast (by omega : 1 * n < m % n * 2)
      simp only [Represents, ExtendedMantissa.ofMantissaAndAccuracy]
      constructor <;> linarith

theorem div_finite {m n : ℕ} {d e : ℤ} (hm : 0 < m) (hn : 0 < n) :
    UnpackedFloat.div Format.binary64 (.finite .positive m d hm) (.finite .positive n e hn)
      = nearest (m * 2 ^ d / (n * 2 ^ e)) := by
  have hmq : (0 : ℚ) < m := by exact_mod_cast hm
  have hnq : (0 : ℚ) < n := by exact_mod_cast hn
  obtain ⟨hml, -⟩ := log2_bounds (Nat.pos_iff_ne_zero.1 hm)
  obtain ⟨-, hnu⟩ := log2_bounds (Nat.pos_iff_ne_zero.1 hn)
  obtain ⟨s, hs⟩ : ∃ s : ℕ, d - e - min (d - e) (Format.binary64.targetExponent
      (totalExponent m d - totalExponent n e)) = s := ⟨_, (Int.toNat_of_nonneg (by omega)).symm⟩
  generalize ht : min (d - e) (Format.binary64.targetExponent
    (totalExponent m d - totalExponent n e)) = t at hs
  have hv : ((m <<< s : ℕ) : ℚ) / n = m * 2 ^ d / (n * 2 ^ e) / 2 ^ t := by
    rw [Nat.shiftLeft_eq, div_div, show d = s + (e + t) by omega, zpow_add₀ (by norm_num),
      zpow_add₀ (by norm_num), zpow_natCast]
    push_cast
    field_simp
  simp only [UnpackedFloat.div, divCore, ht, hs, Int.toNat_natCast]
  refine roundWithAccuracy_eq (div_pos (mul_pos hmq (two_pow_pos _))
    (mul_pos hnq (two_pow_pos _))) ?_ ?_
  · rw [← hv]
    exact represents_quotient _ hn
  · refine le_trans ?_ (le_placeExponent (k := m.log2 + d - (n.log2 + 1 + e)) ?_)
    · rw [← ht]
      simp only [Format.targetExponent, totalExponent, Format.mantissaBits, Format.minExponent]
      norm_num
      omega
    · rw [zpow_sub₀ (by norm_num), zpow_add₀ (by norm_num), zpow_add₀ (by norm_num) (_ + 1)]
      have hp := two_pow_pos d
      have hq := two_pow_pos e
      have hn1 : (n : ℚ) ≤ 2 ^ ((n.log2 : ℤ) + 1) := by linarith
      gcongr

end Bourse.Number
