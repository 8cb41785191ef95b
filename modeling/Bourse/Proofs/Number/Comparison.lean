import Bourse.Proofs.Number.Packing

/-!
# Comparison of doubles

Two doubles that are numbers are always comparable (`exists_compare`), and the other way round with
the opposite outcome (`compare_swap`). So one thing is true of them: the first is less, the second
is less, or they are equal (`compared_once`).
-/

namespace Bourse.Number

open Float.Model

theorem compare_swap (u v : UnpackedFloat) : v.compare u = (u.compare v).map Ordering.swap := by
  have hfinite : ∀ (m m' : ℕ) (e e' : ℤ), (compare e' e).then (compare m' m)
      = ((compare e e').then (compare m m')).swap := by
    intro m m' e e'
    rw [Ordering.swap_then, ← Std.OrientedCmp.eq_swap, ← Std.OrientedCmp.eq_swap]
  cases u with
  | notANumber => cases v <;> rfl
  | infinity s =>
    cases v with
    | infinity s' => cases s <;> cases s' <;> rfl
    | _ => cases s <;> rfl
  | zero s =>
    cases v with
    | infinity s' => cases s' <;> rfl
    | finite s' => cases s' <;> rfl
    | _ => rfl
  | finite s m e h =>
    cases v with
    | infinity s' => cases s' <;> rfl
    | finite s' m' e' h' =>
      cases s <;> cases s' <;>
        simp only [UnpackedFloat.compare, Option.map_some, Ordering.swap_swap,
          hfinite m m' e e'] <;>
        rfl
    | _ => cases s <;> rfl

theorem exists_compare {u v : UnpackedFloat} (hu : u ≠ .notANumber) (hv : v ≠ .notANumber) :
    ∃ o, u.compare v = some o := by
  unfold UnpackedFloat.compare
  split
  · exact absurd rfl hu
  · exact absurd rfl hv
  all_goals exact ⟨_, rfl⟩

theorem lt_iff_compare (x y : Float) : x < y ↔ (parts x).compare (parts y) = some .lt := by
  change Float.lt x y = true ↔ _
  unfold Float.lt
  rw [decide_eq_true_eq]
  exact beq_iff_eq

theorem beq_iff_compare (x y : Float) :
    (x == y) = true ↔ (parts x).compare (parts y) = some .eq := by
  change (parts x).beq (parts y) = true ↔ _
  exact beq_iff_eq

/-- Of the three comparisons of two numbers one holds. -/
theorem compared_once {x y : Float} (hx : x.isNaN = false) (hy : y.isNaN = false) :
    (decide (y < x)).toNat + (decide (x < y)).toNat + (x == y).toNat = 1 := by
  have hparts : ∀ {z : Float}, z.isNaN = false → parts z ≠ .notANumber := by
    intro z hz h
    have hnan : z.isNaN = true := UnpackedFloat.isNaN_iff.2 h
    rw [hz] at hnan
    cases hnan
  obtain ⟨o, ho⟩ := exists_compare (hparts hx) (hparts hy)
  have hless : decide (x < y) = (o == .lt) := by
    rw [Bool.eq_iff_iff, decide_eq_true_iff, lt_iff_compare, ho, Option.some.injEq, beq_iff_eq]
  have hgreater : decide (y < x) = (o.swap == .lt) := by
    rw [Bool.eq_iff_iff, decide_eq_true_iff, lt_iff_compare, compare_swap, ho, Option.map_some,
      Option.some.injEq, beq_iff_eq]
  have hequal : (x == y) = (o == .eq) := by
    rw [Bool.eq_iff_iff, beq_iff_compare, ho, Option.some.injEq, beq_iff_eq]
  rw [hless, hgreater, hequal]
  cases o <;> rfl

end Bourse.Number
