import Mathlib.Data.List.Nodup
import Bourse.Change.Order
import Bourse.Proofs.List.Distinct
import Bourse.Proofs.Number.Packing

/-!
# Orders of changes

What comes before what in a ranking (`RankedBefore`) is a strict order of items with different
codes, so rankings are the starts of the one list of the items in that order (`exists_ranked`),
whatever order they come in (`rankTop_perm`). What has no value comes last, so the values of a
ranking are the ranking of the values (`valued_rankTop`). Records sorted by rank have the same
change, entity and date at each place whatever order they come in (`map_rankKey_sortByRank`), since
different doubles have different places in their total order. Report lines are compared as options
of texts (`compareReports_eq`).
-/

namespace Bourse

open Std (TransCmp LawfulEqCmp)

section Ranking

variable {α : Type} (value : α → Option Float) (code : α → String)

/-- The greater value comes first, any value before none, and equal ones go by code. -/
def RankedBefore (a b : α) : Prop :=
  match value a, value b with
  | some x, some y => Number.totalRank y < Number.totalRank x ∨
      Number.totalRank x = Number.totalRank y ∧ code a < code b
  | some _, none => True
  | none, some _ => False
  | none, none => code a < code b

theorem compare_lt_iff (s t : String) : compare s t = .lt ↔ s < t := by
  exact compareOfLessAndEq_eq_lt

theorem isLE_compare_iff (s t : String) : (compare s t).isLE ↔ s ≤ t := by
  rw [← Ordering.ne_gt_iff_isLE, Std.OrientedCmp.gt_iff_lt, compare_lt_iff, not_lt]

theorem compareRanked_eq_lt_iff (a b : α) :
    compareRanked value code a b = .lt ↔ RankedBefore value code a b := by
  simp only [compareRanked, Ordering.then_eq_lt, compare_lt_iff, RankedBefore]
  rcases value a with _ | x <;> rcases value b with _ | y
  · simp [compareDescending]
  · simp [compareDescending]
  · simp [compareDescending]
  · simp only [compareDescending, Number.compareTotal, Int.compare_eq_lt, Int.compare_eq_eq,
      eq_comm (a := Number.totalRank y)]

instance : TransCmp (compareRanked value code) := by
  have h : compareRanked value code
      = compareLex (fun a b => compareOn (fun x => (value x).map Number.totalRank) b a)
          (compareOn code) := by
    funext a b
    simp only [compareRanked, compareLex, compareOn]
    cases value a <;> cases value b <;> rfl
  rw [h]
  infer_instance

variable {value code}

theorem RankedBefore.of_isLE {a b : α} (h : (compareRanked value code a b).isLE)
    (hne : code a ≠ code b) : RankedBefore value code a b := by
  rw [← compareRanked_eq_lt_iff]
  refine (Ordering.isLE_iff_eq_lt_or_eq_eq.1 h).resolve_right fun heq => hne ?_
  exact LawfulEqCmp.eq_of_compare (Ordering.then_eq_eq.1 heq).2

variable (value) in
/-- Rankings are the starts of one list of the items, with each one ranked before the next. -/
theorem exists_ranked {items : List α} (h : (items.map code).Nodup) :
    ∃ ranking : List α, ranking.Pairwise (RankedBefore value code) ∧ ranking.Perm items ∧
      ∀ limit, rankTop limit value code items = ranking.take (min limit topCount) := by
  refine ⟨_, ?_, List.mergeSort_perm items _, fun _ => rfl⟩
  have htotal : ∀ a b : α, ((compareRanked value code a b).isLE ||
      (compareRanked value code b a).isLE) = true := isLE_total
  have hsorted := List.pairwise_mergeSort (fun _ _ _ => TransCmp.isLE_trans) htotal items
  have hcodes := ((List.mergeSort_perm items fun a b => (compareRanked value code a b).isLE).map
    code).nodup_iff.2 h
  exact (hsorted.and (List.pairwise_map.1 hcodes)).imp fun hab => .of_isLE hab.1 hab.2

variable (value) in
theorem rankTop_eq (limit : ℕ) {items : List α} (h : (items.map code).Nodup) :
    ∃ ranking : List α, rankTop limit value code items = ranking.take (min limit topCount) ∧
      ranking.Pairwise (RankedBefore value code) ∧ ranking.Perm items := by
  obtain ⟨ranking, hordered, hperm, htop⟩ := exists_ranked value h
  exact ⟨ranking, htop limit, hordered, hperm⟩

theorem compareRanked_eq_gt_iff (a b : α) :
    compareRanked value code a b = .gt ↔ RankedBefore value code b a := by
  rw [← compareRanked_eq_lt_iff]
  exact Std.OrientedCmp.gt_iff_lt

theorem RankedBefore.asymm {a b : α} (h : RankedBefore value code a b) :
    ¬RankedBefore value code b a := by
  rw [← compareRanked_eq_lt_iff] at h
  rw [← compareRanked_eq_gt_iff, h]
  nofun

/-- A ranking does not depend on the order that its items come in. -/
theorem rankTop_perm (limit : ℕ) {items items' : List α} (h : (items.map code).Nodup)
    (hperm : items.Perm items') :
    rankTop limit value code items = rankTop limit value code items' := by
  obtain ⟨ranking, htop, hordered, hmem⟩ := rankTop_eq value limit h
  obtain ⟨ranking', htop', hordered', hmem'⟩ :=
    rankTop_eq value limit ((hperm.map code).nodup_iff.1 h)
  have hranking : ranking = ranking' := eq_of_pairwise RankedBefore.asymm hordered hordered'
    fun x => by rw [hmem.mem_iff, hmem'.mem_iff, hperm.mem_iff]
  rw [htop, htop', hranking]

variable (value) in
/-- A ranking of one item for each of some codes. -/
theorem rankTop_map (limit : ℕ) {codes : List String} {item : String → α}
    (hcode : ∀ s, code (item s) = s) (h : codes.Nodup) :
    ∃ ranking : List α,
      rankTop limit value code (codes.map item) = ranking.take (min limit topCount) ∧
        ranking.Pairwise (RankedBefore value code) ∧
        ∀ a, a ∈ ranking ↔ ∃ s ∈ codes, a = item s := by
  have hcodes : (codes.map item).map code = codes := by
    rw [List.map_map]
    exact (List.map_congr_left fun s _ => hcode s).trans (List.map_id codes)
  obtain ⟨ranking, htop, hordered, hperm⟩ := rankTop_eq value limit (hcodes.symm ▸ h)
  refine ⟨ranking, htop, hordered, fun a => ?_⟩
  simp only [hperm.mem_iff, List.mem_map, eq_comm]

variable (value code) in
/-- The codes and values of the items that have a value. -/
def valued (items : List α) : List (String × Float) :=
  items.filterMap fun a => (value a).map (code a, ·)

theorem mem_valued {items : List α} {s : String} {x : Float} :
    (s, x) ∈ valued value code items ↔ ∃ a ∈ items, code a = s ∧ value a = some x := by
  simp only [valued, List.mem_filterMap, Option.map_eq_some_iff, Prod.mk.injEq]
  refine exists_congr fun a => and_congr_right fun _ => ⟨?_, ?_⟩
  · rintro ⟨y, hy, rfl, rfl⟩
    exact ⟨rfl, hy⟩
  · rintro ⟨rfl, hx⟩
    exact ⟨x, hx, rfl, rfl⟩

variable (value) in
theorem nodup_valued {items : List α} (h : (items.map code).Nodup) :
    ((valued value code items).map Prod.fst).Nodup := by
  refine h.sublist (map_filterMap_sublist (fun a p hp => ?_) items)
  obtain ⟨x, -, rfl⟩ := Option.map_eq_some_iff.1 hp
  rfl

/-- When members of which nothing is made come last, the first ones are made of the first ones. -/
theorem filterMap_take {β : Type} {f : α → Option β} : ∀ {l : List α} (n : ℕ),
    (l.Pairwise fun a b => f a = none → f b = none) →
      (l.take n).filterMap f = (l.filterMap f).take n
  | [], n, _ => by rw [List.take_nil, List.filterMap_nil, List.take_nil]
  | a :: l, 0, _ => rfl
  | a :: l, n + 1, h => by
    rw [List.take_succ_cons, List.filterMap_cons, List.filterMap_cons]
    cases ha : f a with
    | none =>
      have hnone : ∀ b ∈ l, f b = none := fun b hb => List.rel_of_pairwise_cons h hb ha
      simp [List.filterMap_eq_nil_iff.2 hnone, List.filterMap_eq_nil_iff.2 fun b hb =>
        hnone b (List.mem_of_mem_take hb)]
    | some x => exact congrArg (x :: ·) (filterMap_take n h.of_cons)

theorem RankedBefore.eq_none {a b : α} (h : RankedBefore value code a b) (ha : value a = none) :
    value b = none := by
  unfold RankedBefore at h
  rw [ha] at h
  cases hb : value b with
  | none => rfl
  | some y =>
    rw [hb] at h
    exact h.elim

variable (value) in
/-- The values of a ranking are the ranking of the values. -/
theorem valued_rankTop (limit : ℕ) {items : List α} (h : (items.map code).Nodup) :
    valued value code (rankTop limit value code items)
      = rankTop limit (fun p => some p.2) Prod.fst (valued value code items) := by
  obtain ⟨ranking, htop, hordered, hperm⟩ := rankTop_eq value limit h
  obtain ⟨ranking', htop', hordered', hperm'⟩ :=
    rankTop_eq (fun p : String × Float => some p.2) limit (nodup_valued value h)
  have hlast : ranking.Pairwise fun a b => (value a).map (code a, ·) = none →
      (value b).map (code b, ·) = none := by
    refine hordered.imp fun hab => ?_
    rw [Option.map_eq_none_iff, Option.map_eq_none_iff]
    exact hab.eq_none
  have hranked : (valued value code ranking).Pairwise
      (RankedBefore (fun p : String × Float => some p.2) Prod.fst) := by
    refine List.pairwise_filterMap.2 (hordered.imp fun {a b} hab p hp q hq => ?_)
    obtain ⟨x, hx, rfl⟩ := Option.map_eq_some_iff.1 hp
    obtain ⟨y, hy, rfl⟩ := Option.map_eq_some_iff.1 hq
    unfold RankedBefore at hab
    rwa [hx, hy] at hab
  have hranking : valued value code ranking = ranking' := by
    refine eq_of_pairwise RankedBefore.asymm hranked hordered' fun p => ?_
    rw [hperm'.mem_iff]
    exact (hperm.filterMap _).mem_iff
  rw [htop, htop', ← hranking]
  exact filterMap_take _ hlast

end Ranking

section Ranks

theorem eq_of_compareDescending {a b : Option Float} (h : compareDescending a b = .eq) :
    a = b := by
  rcases a with _ | x <;> rcases b with _ | y
  · rfl
  · cases h
  · cases h
  · exact congrArg some (Number.totalRank_inj (Int.compare_eq_eq.1 h).symm)

/-- What records are ranked by: change, entity and date. -/
def ChangeRecord.rankKey (r : ChangeRecord) : Option Float × String × String :=
  (r.percentChange, r.entity, r.date)

def compareRankKeys (a b : Option Float × String × String) : Ordering :=
  (compareDescending a.1 b.1).then ((compare a.2.1 b.2.1).then (compare b.2.2 a.2.2))

instance : TransCmp compareRankKeys := by
  have h : compareRankKeys
      = compareLex (fun a b => compareOn (fun x => x.1.map Number.totalRank) b a)
          (compareLex (compareOn (·.2.1)) (fun a b => compareOn (·.2.2) b a)) := by
    funext a b
    simp only [compareRankKeys, compareLex, compareOn]
    rcases a with ⟨_ | _, _⟩ <;> rcases b with ⟨_ | _, _⟩ <;> rfl
  rw [h]
  infer_instance

instance : LawfulEqCmp compareRankKeys where
  eq_of_compare h := by
    obtain ⟨hchange, hrest⟩ := Ordering.then_eq_eq.1 h
    obtain ⟨hentity, hdate⟩ := Ordering.then_eq_eq.1 hrest
    exact Prod.ext (eq_of_compareDescending hchange) (Prod.ext
      (LawfulEqCmp.eq_of_compare hentity) (LawfulEqCmp.eq_of_compare hdate).symm)

/-- Sorted by rank, records in another order still have the same ranks place by place. -/
theorem map_rankKey_sortByRank {records records' : List ChangeRecord}
    (hperm : records.Perm records') :
    (ChangeRecord.sortByRank records).map ChangeRecord.rankKey
      = (ChangeRecord.sortByRank records').map ChangeRecord.rankKey :=
  show (records.mergeSort fun a b => (compareRankKeys a.rankKey b.rankKey).isLE).map _
    = (records'.mergeSort fun a b => (compareRankKeys a.rankKey b.rankKey).isLE).map _ from
  map_mergeSort_perm hperm

end Ranks

theorem compareReports_eq : compareReports = compare := by
  funext a b
  cases a <;> cases b <;> rfl

instance : TransCmp compareReports := by
  rw [compareReports_eq]
  infer_instance

instance : LawfulEqCmp compareReports := by
  rw [compareReports_eq]
  infer_instance

/-- No line comes before every line. -/
theorem compareReports_lt_iff (a b : Option String) : compareReports a b = .lt ↔ a < b := by
  rcases a with _ | a <;> rcases b with _ | b
  · simp [compareReports]
  · simp [compareReports]
  · simp [compareReports]
  · rw [compareReports, compare_lt_iff, Option.some_lt_some]

end Bourse
