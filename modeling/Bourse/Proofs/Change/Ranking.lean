import Bourse.Proofs.Change.Order
import Bourse.Proofs.List.Stable

/-!
# Rankings as stable sorts

Items are ranked by value and code, and those that are the same in both (`Tied`) keep the order that
they come in. Only one list of the items is so (`StableRanking.unique`), and a ranking is the start
of it (`rankTop_append`): nothing is left out that would come before what is kept.
-/

namespace Bourse

open Std (TransCmp LawfulEqCmp)

variable {α : Type} {value : α → Option Float} {code : α → String}

variable (value code) in
/-- The same value and the same code. -/
def Tied (a b : α) : Prop :=
  value a = value b ∧ code a = code b

instance (a : α) : DecidablePred (Tied value code a) :=
  fun _ => inferInstanceAs (Decidable (_ ∧ _))

theorem compareRanked_eq_eq_iff {a b : α} :
    compareRanked value code a b = .eq ↔ Tied value code a b := by
  rw [compareRanked, Ordering.then_eq_eq]
  constructor
  · rintro ⟨hvalue, hcode⟩
    exact ⟨eq_of_compareDescending hvalue, LawfulEqCmp.eq_of_compare hcode⟩
  · rintro ⟨hvalue, hcode⟩
    have hself : compareRanked value code a a = .eq := Std.ReflCmp.compare_self
    rw [compareRanked, Ordering.then_eq_eq] at hself
    rwa [← hvalue, ← hcode]

namespace Tied

variable {a b c : α}

theorem symm (h : Tied value code a b) : Tied value code b a :=
  ⟨h.1.symm, h.2.symm⟩

theorem trans (h : Tied value code a b) (h' : Tied value code b c) : Tied value code a c :=
  ⟨h.1.trans h'.1, h.2.trans h'.2⟩

/-- Items are tied when neither is ranked before the other. -/
theorem of_not_rankedBefore (h : ¬RankedBefore value code a b) (h' : ¬RankedBefore value code b a) :
    Tied value code a b := by
  rw [← compareRanked_eq_eq_iff]
  cases hcompare : compareRanked value code a b with
  | lt => exact absurd ((compareRanked_eq_lt_iff value code a b).1 hcompare) h
  | eq => rfl
  | gt => exact absurd ((compareRanked_eq_gt_iff a b).1 hcompare) h'

end Tied

theorem not_rankedBefore_of_isLE {a b : α} (h : (compareRanked value code a b).isLE) :
    ¬RankedBefore value code b a := by
  intro hba
  rw [(compareRanked_eq_gt_iff a b).2 hba] at h
  cases h

variable (value code) in
/-- The items with none ranked before an earlier one, and the tied ones in the order that they come
in. -/
structure StableRanking (items ranking : List α) : Prop where
  perm : ranking.Perm items
  ordered : ranking.Pairwise fun a b => ¬RankedBefore value code b a
  stable : ∀ a, ranking.filter (Tied value code a) = items.filter (Tied value code a)

variable (value code) in
theorem stableRanking_mergeSort (items : List α) :
    StableRanking value code items
      (items.mergeSort fun a b => (compareRanked value code a b).isLE) := by
  have htrans : ∀ a b c : α, (compareRanked value code a b).isLE →
      (compareRanked value code b c).isLE → (compareRanked value code a c).isLE :=
    fun _ _ _ => TransCmp.isLE_trans
  have hperm := List.mergeSort_perm items fun a b => (compareRanked value code a b).isLE
  refine ⟨hperm, ?_, fun a => ?_⟩
  · exact (List.pairwise_mergeSort htrans isLE_total items).imp not_rankedBefore_of_isLE
  · refine filter_mergeSort htrans isLE_total (fun b c hb hc => ?_) items
    rw [compareRanked_eq_eq_iff.2 ((of_decide_eq_true hb).symm.trans (of_decide_eq_true hc))]
    rfl

theorem StableRanking.unique {items ranking ranking' : List α}
    (h : StableRanking value code items ranking) (h' : StableRanking value code items ranking') :
    ranking = ranking' := by
  refine eq_of_filter_eq (Tied value code) (fun _ => ⟨rfl, rfl⟩)
    (fun hab hba => .of_not_rankedBefore hba hab) h.ordered h'.ordered fun a => ?_
  rw [h.stable, h'.stable]

variable (value code) in
/-- A ranking is the start of the stable ranking of its items, and so nothing that is left out is
ranked before what is kept. -/
theorem rankTop_append (items : List α) (limit : ℕ) : ∃ omitted : List α,
    (∀ ranking, StableRanking value code items ranking ↔
      ranking = rankTop limit value code items ++ omitted) ∧
    (rankTop limit value code items).length = min limit (min 50 items.length) ∧
    ∀ kept ∈ rankTop limit value code items, ∀ a ∈ omitted, ¬RankedBefore value code a kept := by
  obtain ⟨stable, hstable, htop⟩ : ∃ stable : List α, StableRanking value code items stable ∧
      rankTop limit value code items = stable.take (min limit 50) :=
    ⟨_, stableRanking_mergeSort value code items, rfl⟩
  have hcut : rankTop limit value code items ++ stable.drop (min limit 50) = stable := by
    rw [htop, List.take_append_drop]
  refine ⟨stable.drop (min limit 50), fun ranking => ?_, ?_, fun kept hkept a ha => ?_⟩
  · rw [hcut]
    constructor
    · exact fun h => h.unique hstable
    · rintro rfl
      exact hstable
  · rw [htop, List.length_take, hstable.perm.length_eq]
    omega
  · have hordered := hstable.ordered
    rw [← hcut, List.pairwise_append] at hordered
    exact hordered.2.2 kept hkept a ha

end Bourse
