import Bourse.Proofs.Number.Comparison
import Bourse.Proofs.Number.Decimal
import Bourse.Tables

/-!
# Changes between sums

The sum of one number is that number, added to zero, as nothing is lost there (`value_zero_add`):
all that changes is the sign of a negative zero (`zero_add_eq`), and what is no number is dropped. A
change does not see either, so the change between two such sums is that between the numbers
themselves (`percentChange_total`).
-/

namespace Bourse

namespace Number

open Float.Model Float.Model.UnpackedFloat

theorem add_eq (x y : Float) :
    x + y = ofParts (UnpackedFloat.add Format.binary64 (parts x) (parts y)) := rfl

theorem sub_eq (x y : Float) :
    x - y = ofParts (UnpackedFloat.sub Format.binary64 (parts x) (parts y)) := rfl

theorem beq_eq (x y : Float) : (x == y) = (parts x).beq (parts y) := rfl

theorem isNaN_iff (x : Float) : x.isNaN = true ↔ parts x = .notANumber :=
  UnpackedFloat.isNaN_iff

theorem parts_zero : parts 0.0 = .zero .positive := by
  have h : (0.0 : Float) = ofParts (.zero .positive) := by decide
  rw [h, parts_ofParts (u := .zero .positive) trivial]

/-- Adding to zero changes nothing but the sign of a negative zero. -/
theorem zero_add_eq (x : Float) :
    parts x ≠ .zero .negative ∧ 0.0 + x = x ∨ parts x = .zero .negative ∧ 0.0 + x = 0.0 := by
  rw [add_eq, parts_zero]
  cases hx : parts x with
  | zero s =>
    cases s with
    | positive => exact .inl ⟨nofun, by rw [← ofParts_parts x, hx]; rfl⟩
    | negative => exact .inr ⟨rfl, by rw [← ofParts_parts 0.0, parts_zero]; rfl⟩
  | _ => exact .inl ⟨nofun, by rw [← ofParts_parts x, hx]; rfl⟩

theorem add_zero_eq {x : Float} (h : parts x ≠ .zero .negative) : x + 0.0 = x := by
  rw [add_eq, parts_zero]
  conv_rhs => rw [← ofParts_parts x]
  cases hx : parts x with
  | zero s =>
    cases s with
    | positive => rfl
    | negative => exact absurd hx h
  | _ => rfl

/-- No magnitude is below zero. -/
theorem not_abs_lt_zero (x : Float) : ¬x.abs < (0.0 : Float).abs := by
  have habs : parts (0.0 : Float).abs = .zero .positive := by
    rw [abs_eq, parts_zero]
    exact parts_ofParts (u := .zero .positive) trivial
  rw [lt_iff_compare, habs, abs_eq, parts_ofParts (canonical_abs (canonical_parts x))]
  cases parts x <;> exact nofun

theorem zero_add_isNaN (x : Float) : (0.0 + x).isNaN = x.isNaN := by
  rcases zero_add_eq x with ⟨-, h⟩ | ⟨hx, h⟩
  · rw [h]
  · rw [h, Bool.eq_iff_iff, isNaN_iff, isNaN_iff, hx, parts_zero]
    exact ⟨nofun, nofun⟩

theorem beq_zero_iff (x : Float) : (x == 0.0) = true ↔ ∃ s, parts x = .zero s := by
  rw [beq_eq, parts_zero]
  cases parts x with
  | zero s => exact ⟨fun _ => ⟨s, rfl⟩, fun _ => rfl⟩
  | notANumber => exact ⟨nofun, nofun⟩
  | infinity s => cases s <;> exact ⟨nofun, nofun⟩
  | finite s => cases s <;> exact ⟨nofun, nofun⟩

/-- A zero of either sign gives the same difference from what is not zero. -/
theorem zero_sub_eq {x y : Float} (hx : parts x = .zero .negative) (hy : ¬(y == 0.0) = true) :
    0.0 - y = x - y := by
  rw [beq_zero_iff] at hy
  rw [sub_eq, sub_eq, hx, parts_zero]
  cases h : parts y with
  | zero s => exact absurd ⟨s, h⟩ hy
  | _ => rfl

theorem parts_notANumber : parts (ofParts .notANumber) = .notANumber :=
  parts_ofParts (u := .notANumber) trivial

theorem add_isNaN {x y : Float} (h : x.isNaN = true ∨ y.isNaN = true) : (x + y).isNaN = true := by
  have hparts : UnpackedFloat.add Format.binary64 (parts x) (parts y) = .notANumber := by
    rcases h with h | h <;> rw [(isNaN_iff _).1 h]
    · rfl
    · cases parts x <;> rfl
  rw [isNaN_iff, add_eq, hparts, parts_notANumber]

theorem sub_isNaN {x y : Float} (h : x.isNaN = true ∨ y.isNaN = true) : (x - y).isNaN = true := by
  have hparts : UnpackedFloat.sub Format.binary64 (parts x) (parts y) = .notANumber := by
    rcases h with h | h <;> rw [(isNaN_iff _).1 h]
    · rfl
    · cases parts x <;> rfl
  rw [isNaN_iff, sub_eq, hparts, parts_notANumber]

/-- A number leaves nothing when it is taken from itself, and what is not finite no number. -/
theorem sub_self_cases (x : Float) : x - x = 0.0 ∨ (x - x).isNaN = true := by
  rw [isNaN_iff, sub_eq]
  cases parts x with
  | notANumber => exact .inr parts_notANumber
  | infinity s => cases s <;> exact .inr parts_notANumber
  | zero s =>
    refine .inl ?_
    rw [← ofParts_parts 0.0, parts_zero]
    cases s <;> rfl
  | finite s m e hm =>
    refine .inl ?_
    rw [← ofParts_parts 0.0, parts_zero]
    simp only [UnpackedFloat.sub, UnpackedFloat.normalize, sub_self]
    rfl

theorem div_isNaN {x : Float} (y : Float) (h : x.isNaN = true) : (x / y).isNaN = true := by
  rw [isNaN_iff, div_eq, (isNaN_iff x).1 h]
  exact parts_notANumber

theorem mul_isNaN {x : Float} (y : Float) (h : x.isNaN = true) : (x * y).isNaN = true := by
  rw [isNaN_iff, mul_eq, (isNaN_iff x).1 h]
  exact parts_notANumber

theorem isFinite_of_isNaN {x : Float} (h : x.isNaN = true) : x.isFinite = false := by
  rw [isFinite_eq, (isNaN_iff x).1 h]
  rfl

end Number

open Number

theorem percentChange_of_isNaN {prior current : Float}
    (h : prior.isNaN = true ∨ current.isNaN = true) :
    percentChange (some prior) (some current) = none := by
  have hchange := mul_isNaN 100.0 (div_isNaN prior.abs (sub_isNaN h.symm))
  simp only [percentChange, isFinite_of_isNaN hchange, Bool.false_eq_true, if_false, ite_self]

/-- Adding a number to zero is not seen by a change. -/
theorem percentChange_zero_add (prior current : Float) :
    percentChange (some (0.0 + prior)) (some (0.0 + current))
      = percentChange (some prior) (some current) := by
  have hprior : percentChange (some (0.0 + prior)) (some (0.0 + current))
      = percentChange (some prior) (some (0.0 + current)) := by
    rcases zero_add_eq prior with ⟨-, h⟩ | ⟨hp, h⟩
    · rw [h]
    · have hzero : (prior == 0.0) = true := (beq_zero_iff prior).2 ⟨_, hp⟩
      have hzero' : ((0.0 : Float) == 0.0) = true := (beq_zero_iff 0.0).2 ⟨_, parts_zero⟩
      rw [h]
      simp only [percentChange, if_pos hzero, if_pos hzero']
  rw [hprior]
  rcases zero_add_eq current with ⟨-, h⟩ | ⟨hc, h⟩
  · rw [h]
  · by_cases hzero : (prior == 0.0) = true
    · simp only [percentChange, if_pos hzero]
    · simp only [percentChange, if_neg hzero, h, zero_sub_eq hc hzero]

/-- A sum of one number has lost nothing. -/
theorem RunningSum.value_zero_add (x : Float) : (zero.add x).value = 0.0 + x := by
  have hadd : zero.add x = ⟨0.0 + x, 0.0 + (x - (0.0 + x) + 0.0)⟩ :=
    congrArg (fun lost => (⟨0.0 + x, 0.0 + lost⟩ : RunningSum)) (if_neg (not_abs_lt_zero x))
  rw [hadd]
  rcases zero_add_eq x with ⟨hne, h⟩ | ⟨hzero, h⟩
  · rw [h]
    rcases sub_self_cases x with hlost | hlost
    · have hnone : (0.0 + (0.0 + 0.0) : Float) = 0.0 := by decide
      have hfinite : (0.0 : Float).isFinite = true := by decide
      rw [hlost, hnone, value, if_pos hfinite, add_zero_eq hne]
    · have hstep : (x - x + 0.0).isNaN = true := add_isNaN (.inl hlost)
      have hnan : (0.0 + (x - x + 0.0)).isNaN = true := add_isNaN (.inr hstep)
      simp only [value, isFinite_of_isNaN hnan, Bool.false_eq_true, if_false]
  · rw [h, ← ofParts_parts x, hzero]
    decide

namespace Tables

theorem total_some (x : Float) : total [some x] = if x.isNaN then none else some (0.0 + x) := by
  have hkept : total [some x] = kept (some (RunningSum.zero.add x).value) := rfl
  rw [hkept, RunningSum.value_zero_add, kept, Option.filter_some, zero_add_isNaN]
  cases x.isNaN <;> rfl

-- of more numbers than one a naive sum gives 0.6000000000000001 here, and 0 below
example : total [some 0.1, some 0.2, some 0.3] = some 0.6 := by decide +kernel

example : total [some 1e16, some 1.0, some (-1e16)] = some 1.0 := by decide +kernel

end Tables

/-- The change between two sums of one value each is the change between the values. -/
theorem percentChange_total (prior current : Option Float) :
    percentChange (Tables.total [prior]) (Tables.total [current])
      = percentChange prior current := by
  cases prior with
  | none => rfl
  | some prior =>
    cases current with
    | none =>
      rw [Tables.total_some]
      split_ifs <;> rfl
    | some current =>
      rw [Tables.total_some, Tables.total_some]
      split_ifs with hp hc hc
      · exact (percentChange_of_isNaN (.inl hp)).symm
      · exact (percentChange_of_isNaN (.inl hp)).symm
      · exact (percentChange_of_isNaN (.inr hc)).symm
      · exact percentChange_zero_add prior current

end Bourse
