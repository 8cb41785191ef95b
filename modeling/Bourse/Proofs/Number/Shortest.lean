import Bourse.Number.Shortest
import Bourse.Proofs.Number.Decimal

/-!
# Shortest digits read back

One of the two neighbours of a positive double on the grid of seventeen digits is close enough to
it to be read as it (`neighbour?_seventeen`), so the search for the shortest digits always ends with
digits that read back, and there are never many of them (`shortest_spec`).
-/

namespace Bourse.Number

open Float.Model Float.Model.UnpackedFloat
open Text (toDigits_bounds)

theorem parts_abs (x : Float) : parts x.abs = (parts x).abs := by
  rw [abs_eq, parts_ofParts (canonical_abs (canonical_parts x))]

/-- The magnitude of a finite double is zero, or a significand and a power of two. -/
theorem abs_cases {x : Float} (h : x.isFinite) :
    parts x.abs = .zero .positive ∨ ∃ m e hm, parts x.abs = .finite .positive m e hm := by
  rw [isFinite_eq] at h
  rw [parts_abs]
  cases hp : parts x with
  | notANumber => rw [hp] at h; cases h
  | infinity s => rw [hp] at h; cases h
  | zero s => exact .inl rfl
  | finite s m e hm => exact .inr ⟨m, e, hm, rfl⟩

theorem magnitudeFraction_zero {x : Float} {s : Sign} (h : parts x = .zero s) :
    (magnitudeFraction x).1 = 0 := by
  simp only [magnitudeFraction, binaryParts_zero h, Nat.zero_mul]
  split_ifs <;> rfl

theorem magnitudeFraction_eq {x : Float} {s : Sign} {m : ℕ} {e : ℤ} {hm : 0 < m}
    (h : parts x = .finite s m e hm) :
    0 < (magnitudeFraction x).1 ∧ 0 < (magnitudeFraction x).2 ∧
      ((magnitudeFraction x).1 : ℚ) / (magnitudeFraction x).2 = m * 2 ^ e := by
  simp only [magnitudeFraction, binaryParts_eq h]
  split_ifs with he
  · refine ⟨hm, Nat.two_pow_pos _, ?_⟩
    rw [Nat.pow_eq, Nat.cast_pow, Nat.cast_ofNat, ← zpow_natCast, div_eq_mul_inv, ← zpow_neg]
    congr 2
    omega
  · refine ⟨Nat.mul_pos hm (Nat.two_pow_pos _), Nat.one_pos, ?_⟩
    rw [Nat.pow_eq, Nat.cast_mul, Nat.cast_pow, Nat.cast_ofNat, ← zpow_natCast, Nat.cast_one,
      div_one]
    congr 2
    omega

theorem decimalSize_bounds {num den : ℕ} (hn : 0 < num) (hd : 0 < den) :
    (10 : ℚ) ^ (decimalSize num den - 1) ≤ num / den ∧
      (num : ℚ) / den < 10 ^ decimalSize num den := by
  have hdq : (0 : ℚ) < den := by exact_mod_cast hd
  unfold decimalSize
  split_ifs with h
  · obtain ⟨hl, hu⟩ := toDigits_bounds (Nat.div_pos h hd)
    generalize hlen : (Nat.toDigits 10 (num / den)).length = len at hl hu
    have hlen0 : 0 < len := hlen ▸ Nat.length_toDigits_pos
    rw [Nat.le_div_iff_mul_le hd] at hl
    rw [Nat.div_lt_iff_lt_mul hd] at hu
    rw [le_div_iff₀ hdq, div_lt_iff₀ hdq, ← Nat.cast_pred hlen0, zpow_natCast, zpow_natCast]
    exact_mod_cast And.intro hl hu
  · have hk : 0 < (den - 1) / num := Nat.div_pos (by omega) hn
    obtain ⟨hl, hu⟩ := toDigits_bounds hk
    generalize hlen : (Nat.toDigits 10 ((den - 1) / num)).length = len at hl hu
    have hlen0 : 0 < len := hlen ▸ Nat.length_toDigits_pos
    rw [Nat.le_div_iff_mul_le hn] at hl
    rw [Nat.div_lt_iff_lt_mul hn] at hu
    have hexp : (1 : ℤ) - len = -((len - 1 : ℕ) : ℤ) := by omega
    rw [sub_sub_cancel_left, hexp, zpow_neg, zpow_neg, zpow_natCast, zpow_natCast,
      le_div_iff₀ hdq, div_lt_iff₀ hdq, inv_mul_le_iff₀ (by positivity),
      lt_inv_mul_iff₀ (by positivity)]
    constructor
    · exact_mod_cast (by omega : den ≤ 10 ^ len * num)
    · exact_mod_cast (by omega : 10 ^ (len - 1) * num < den)

theorem exists_scaled (num : ℕ) {den : ℕ} (hd : 0 < den) (exponent : ℤ) :
    ∃ n d : ℕ, (if exponent < 0 then (num * Nat.pow 10 exponent.natAbs, den)
      else (num, den * Nat.pow 10 exponent.natAbs)) = (n, d) ∧
      0 < d ∧ (n : ℚ) / d = num / den / 10 ^ exponent := by
  have hpow : (10 : ℚ) ^ exponent.natAbs = 10 ^ (exponent.natAbs : ℤ) := (zpow_natCast _ _).symm
  split_ifs with h
  · refine ⟨_, _, rfl, hd, ?_⟩
    rw [Nat.pow_eq, Nat.cast_mul, Nat.cast_pow, Nat.cast_ofNat, hpow,
      show (exponent.natAbs : ℤ) = -exponent by omega, zpow_neg]
    ring
  · refine ⟨_, _, rfl, Nat.mul_pos hd (Nat.pow_pos (by decide)), ?_⟩
    rw [Nat.pow_eq, Nat.cast_mul, Nat.cast_pow, Nat.cast_ofNat, hpow,
      show (exponent.natAbs : ℤ) = exponent by omega, div_div]

/-- The neighbours of a value on a grid are the integers around it in units of the grid, and a
neighbour is found when one of them reads back. -/
theorem neighbour?_spec (num : ℕ) {den : ℕ} (hd : 0 < den) (exponent : ℤ) :
    ∃ k : ℕ, (k : ℚ) ≤ num / den / 10 ^ exponent ∧ (num : ℚ) / den / 10 ^ exponent < k + 1 ∧
      ∀ x, (∀ c, neighbour? x num den exponent = some c → c.readsBack x ∧ c.digits ≤ k + 1) ∧
        (neighbour? x num den exponent = none → (⟨k, exponent⟩ : Scaled).readsBack x = false ∧
          (⟨k + 1, exponent⟩ : Scaled).readsBack x = false) := by
  obtain ⟨n, d, hpair, hd', hv⟩ := exists_scaled num hd exponent
  have hdq : (0 : ℚ) < d := by exact_mod_cast hd'
  refine ⟨n / d, ?_, ?_, fun x => ?_⟩
  · rw [← hv, le_div_iff₀ hdq]
    exact_mod_cast Nat.div_mul_le_self n d
  · rw [← hv, div_lt_iff₀ hdq]
    exact_mod_cast (Nat.div_lt_iff_lt_mul hd').1 (Nat.lt_succ_self (n / d))
  simp only [neighbour?, hpair]
  constructor
  · intro c hc
    split at hc
    · split_ifs at hc <;> obtain rfl := Option.some.inj hc <;> exact ⟨‹_›, by simp⟩
    · obtain rfl := Option.some.inj hc
      exact ⟨‹_›, by simp⟩
    · obtain rfl := Option.some.inj hc
      exact ⟨‹_›, by simp⟩
    · cases hc
  · intro hc
    split at hc
    · split_ifs at hc
    · cases hc
    · cases hc
    · exact ⟨‹_›, ‹_›⟩

theorem readsBack_iff {c : Scaled} {x : Float} :
    c.readsBack x ↔ ofDecimal false c.digits c.exponent = x := by
  rw [Scaled.readsBack, beq_iff_eq]
  exact Float.toBits_inj

/-- On a grid of seventeen digits one neighbour of a positive double reads back. -/
theorem neighbour?_seventeen {x : Float} {m : ℕ} {e : ℤ} {hm : 0 < m}
    (hp : parts x = .finite .positive m e hm) {num den : ℕ} (hd : 0 < den)
    (hv : (num : ℚ) / den = m * 2 ^ e) {exponent : ℤ}
    (hgrid : 10 ^ (exponent + 16) ≤ (num : ℚ) / den) :
    (neighbour? x num den exponent).isSome := by
  obtain ⟨hu, he, -, hn⟩ : Canonical (.finite .positive m e hm) := hp ▸ canonical_parts x
  obtain ⟨k, hkl, hku, hx⟩ := neighbour?_spec num hd exponent
  rw [Option.isSome_iff_ne_none]
  intro hnone
  obtain ⟨hbelow, habove⟩ := (hx x).2 hnone
  have ht := ten_pow_pos exponent
  rw [le_div_iff₀ ht] at hkl
  rw [div_lt_iff₀ ht] at hku
  -- Half a step of the grid is less than a part in `2 ^ 54` of the value.
  have hstep : (10 : ℚ) ^ exponent / 2 < num / den / 2 ^ 54 := by
    rw [zpow_add₀ (by norm_num)] at hgrid
    norm_num at hgrid ⊢
    linarith
  have hback : ∀ c : ℕ, (num : ℚ) / den - 10 ^ exponent / 2 ≤ c * 10 ^ exponent →
      (c : ℚ) * 10 ^ exponent ≤ num / den + 10 ^ exponent / 2 →
      (⟨c, exponent⟩ : Scaled).readsBack x := by
    intro c hl hr
    have hnear : nearest (c * 10 ^ exponent) = .finite .positive m e hm := by
      apply nearest_of_close hm hu he hn <;> rw [← hv] <;> linarith
    rw [readsBack_iff, ofDecimal_eq, hnear, ← hp, ofParts_parts]
  rcases le_or_gt ((num : ℚ) / den) (k * 10 ^ exponent + 10 ^ exponent / 2) with hnear | hnear
  · exact Bool.false_ne_true (hbelow.symm.trans (hback k (by linarith) (by linarith)))
  · refine Bool.false_ne_true (habove.symm.trans (hback (k + 1) ?_ ?_)) <;>
      rw [Nat.cast_succ, add_one_mul] <;> linarith

theorem stripZeros_spec : ∀ (fuel : ℕ) (c : Scaled),
    ((c.stripZeros fuel).digits : ℚ) * 10 ^ (c.stripZeros fuel).exponent
        = c.digits * 10 ^ c.exponent ∧
      (c.stripZeros fuel).digits ≤ c.digits
  | 0, _ => ⟨rfl, le_rfl⟩
  | fuel + 1, c => by
    simp only [Scaled.stripZeros]
    split_ifs with h
    · obtain ⟨hv, hle⟩ := stripZeros_spec fuel ⟨c.digits / 10, c.exponent + 1⟩
      refine ⟨hv.trans ?_, hle.trans (Nat.div_le_self _ _)⟩
      obtain ⟨k, hk⟩ : 10 ∣ c.digits := Nat.dvd_of_mod_eq_zero (by simp at h; exact h.1)
      rw [hk, Nat.mul_div_cancel_left k (by decide), zpow_add₀ (by norm_num)]
      push_cast
      ring
    · exact ⟨rfl, le_rfl⟩

/-- A hit of the search has at most the digits of its grid. -/
theorem neighbour?_digits {x : Float} {num den : ℕ} (hn : 0 < num) (hd : 0 < den) {count : ℕ}
    {c : Scaled} (hc : neighbour? x num den (decimalSize num den - count) = some c) :
    c.readsBack x ∧ c.digits ≤ 10 ^ count := by
  obtain ⟨k, hkl, -, hx⟩ := neighbour?_spec num hd (decimalSize num den - count)
  obtain ⟨hback, hle⟩ := (hx x).1 c hc
  refine ⟨hback, hle.trans ?_⟩
  have hlt : (k : ℚ) < 10 ^ count := by
    refine lt_of_le_of_lt hkl ?_
    rw [div_lt_iff₀ (ten_pow_pos _), ← zpow_natCast, ← zpow_add₀ (by norm_num)]
    simpa using (decimalSize_bounds hn hd).2
  exact_mod_cast hlt

/-- The shortest digits of a finite double read back to its magnitude, and are at most seventeen
but for a power of ten. -/
theorem shortest_spec {x : Float} (h : x.isFinite) :
    ofDecimal false (shortest x).digits (shortest x).exponent = x.abs ∧
      (shortest x).digits ≤ 10 ^ 17 := by
  rcases abs_cases h with hp | ⟨m, e, hm, hp⟩
  · have hs : shortest x = ⟨0, 0⟩ := by
      simp only [shortest, magnitudeFraction_zero hp, if_true]
    rw [hs, ← ofParts_parts x.abs, hp, ← zero_eq]
    exact ⟨rfl, Nat.zero_le _⟩
  · obtain ⟨hn, hd, hv⟩ := magnitudeFraction_eq hp
    simp only [shortest]
    generalize (magnitudeFraction x.abs).1 = num at *
    generalize (magnitudeFraction x.abs).2 = den at *
    rw [if_neg hn.ne']
    have hsome : ((List.range' 1 17).findSome? fun count =>
        neighbour? x.abs num den (decimalSize num den - (count : ℕ))).isSome := by
      rw [List.findSome?_isSome_iff]
      refine ⟨17, by decide, neighbour?_seventeen hp hd hv ?_⟩
      rw [show decimalSize num den - (17 : ℕ) + 16 = decimalSize num den - 1 by omega]
      exact (decimalSize_bounds hn hd).1
    obtain ⟨c, hc⟩ := Option.isSome_iff_exists.1 hsome
    obtain ⟨count, hcount, hfound⟩ := List.exists_of_findSome?_eq_some hc
    obtain ⟨hback, hle⟩ := neighbour?_digits hn hd hfound
    have h17 : count ≤ 17 := by
      have := (List.mem_range'_1.1 hcount).2
      omega
    rw [hc, Option.getD_some]
    obtain ⟨hvalue, hdigits⟩ := stripZeros_spec 400 c
    refine ⟨?_, hdigits.trans (hle.trans (Nat.pow_le_pow_right (by decide) h17))⟩
    rw [ofDecimal_eq, hvalue, ← ofDecimal_eq]
    exact readsBack_iff.1 hback

end Bourse.Number
