import Mathlib.Order.Basic
import Mathlib.Data.String.Basic
import Bourse.Change.Lag
import Bourse.Proofs.Change.Order

/-!
# Lagged changes

The points of a series are told apart by date, entity and report line. Then each point has one
lagged change (`mem_keys_lagChanges`, `nodup_lagChanges`), which starts from the latest earlier
point of its part (`of_mem_lagChanges`), whatever order the points come in (`lagChanges_perm`).
-/

namespace Bourse

open Std (TransCmp LawfulEqCmp)

/-- The entity comes before, or it is the same and the report line does. -/
def PartBefore (a b : String × Option String) : Prop :=
  a.1 < b.1 ∨ a.1 = b.1 ∧ a.2 < b.2

/-- The date, entity and report line of a record. -/
def ChangeRecord.key (r : ChangeRecord) : String × String × Option String :=
  (r.date, r.entity, r.report)

namespace SeriesPoint

/-- The date, entity and report line of a point. -/
def key (p : SeriesPoint) : String × String × Option String :=
  (p.date, p.part)

instance : TransCmp comparePart := by
  have h : comparePart = compareLex (compareOn (·.1)) (compareOn (·.2)) := by
    funext a b
    rw [comparePart, compareReports_eq]
    rfl
  rw [h]
  infer_instance

instance : LawfulEqCmp comparePart where
  eq_of_compare h := by
    obtain ⟨hentity, hreport⟩ := Ordering.then_eq_eq.1 h
    exact Prod.ext (LawfulEqCmp.eq_of_compare hentity) (LawfulEqCmp.eq_of_compare hreport)

theorem comparePart_lt_iff (a b : String × Option String) :
    comparePart a b = .lt ↔ PartBefore a b := by
  rw [comparePart, Ordering.then_eq_lt, compare_lt_iff, compareReports_lt_iff, PartBefore,
    LawfulEqCmp.compare_eq_iff_eq]

theorem nodup_parts (points : List SeriesPoint) : (parts points).Nodup :=
  nodup_eraseReps_mergeSort _

theorem mem_parts {points : List SeriesPoint} {key : String × Option String} :
    key ∈ parts points ↔ ∃ p ∈ points, p.part = key := by
  rw [parts, mem_eraseReps, List.mem_mergeSort, List.mem_map]

theorem keys_changesAlong : ∀ (prior : Option SeriesPoint) (points : List SeriesPoint),
    (changesAlong prior points).map ChangeRecord.key = points.map key
  | _, [] => rfl
  | _, p :: rest => congrArg (p.key :: ·) (keys_changesAlong (some p) rest)

/-- A change along a part is that of one of its points from the one before. -/
theorem of_mem_changesAlong {r : ChangeRecord} : ∀ {points : List SeriesPoint}
    {prior : Option SeriesPoint}, r ∈ changesAlong prior points →
      ∃ before p after, points = before ++ p :: after ∧
        r = changeFrom (before.getLast?.or prior) p
  | [], _, h => absurd h List.not_mem_nil
  | p :: rest, prior, h => by
    rcases List.mem_cons.1 h with rfl | hrest
    · exact ⟨[], p, rest, rfl, rfl⟩
    · obtain ⟨before, q, after, rfl, rfl⟩ := of_mem_changesAlong hrest
      refine ⟨p :: before, q, after, rfl, ?_⟩
      rw [List.getLast?_cons]
      cases before.getLast? <;> rfl

/-- `prior` is the point before `p` in its part, and there is none when `p` is the first one. -/
structure IsPrior (points : List SeriesPoint) (p : SeriesPoint) (prior : Option SeriesPoint) :
    Prop where
  earlier : ∀ q ∈ prior, q ∈ points ∧ q.part = p.part ∧ q.date < p.date
  latest : ∀ q ∈ points, q.part = p.part → q.date < p.date → ∃ q' ∈ prior, q.date ≤ q'.date

variable {points : List SeriesPoint}

theorem mem_sortByDate {p : SeriesPoint} : p ∈ sortByDate points ↔ p ∈ points :=
  List.mem_mergeSort

variable (h : (points.map key).Nodup)

include h

theorem nodup_part (part' : String × Option String) :
    ((sortByDate (points.filter fun p => p.part = part')).map key).Nodup := by
  have hperm := (List.mergeSort_perm (points.filter fun p => p.part = part')
    fun a b => (compare a.date b.date).isLE).map key
  exact hperm.nodup_iff.2 (h.sublist (List.filter_sublist.map _))

theorem nodup_dates (part' : String × Option String) :
    ((points.filter fun p => p.part = part').map (·.date)).Nodup := by
  have hkeys : ((points.filter fun p => p.part = part').map key).Nodup :=
    h.sublist (List.filter_sublist.map _)
  refine List.pairwise_map.2 ((List.pairwise_map.1 hkeys).imp_of_mem ?_)
  intro p q hp hq hne hdate
  have hpart := of_decide_eq_true (List.mem_filter.1 hp).2
  have hpart' := of_decide_eq_true (List.mem_filter.1 hq).2
  exact hne (Prod.ext hdate (hpart.trans hpart'.symm))

/-- The points of a part have different dates, so each of them is earlier than the next. -/
theorem pairwise_part (part' : String × Option String) :
    (sortByDate (points.filter fun p => p.part = part')).Pairwise (·.date < ·.date) :=
  (pairwise_mergeSort_key (nodup_dates h part')).imp fun hlt => (compare_lt_iff _ _).1 hlt

/-- The lagged changes do not depend on the order that the points come in. -/
theorem lagChanges_perm {points' : List SeriesPoint} (hperm : points.Perm points') :
    lagChanges points = lagChanges points' := by
  have hantisymm : ∀ {a b : String × Option String}, (comparePart a b).isLE = true →
      (comparePart b a).isLE = true → a = b :=
    fun hab hba => LawfulEqCmp.eq_of_compare (Std.OrientedCmp.isLE_antisymm hab hba)
  have hparts : parts points = parts points' :=
    eraseReps_mergeSort_congr (fun _ _ _ => TransCmp.isLE_trans) isLE_total hantisymm fun part' =>
      (hperm.map part).mem_iff
  have hsorted : ∀ part' : String × Option String,
      sortByDate (points.filter fun p => p.part = part')
        = sortByDate (points'.filter fun p => p.part = part') := fun part' =>
    mergeSort_key_perm (nodup_dates h part') (hperm.filter _)
  simp only [lagChanges, hparts, hsorted]

theorem nodup_lagChanges : ((lagChanges points).map ChangeRecord.key).Nodup := by
  rw [lagChanges, List.map_flatMap, List.nodup_flatMap]
  refine ⟨fun part' _ => ?_, (nodup_parts points).imp fun {a b} hne => ?_⟩
  · rw [keys_changesAlong]
    exact nodup_part h part'
  · intro k hk hk'
    simp only [keys_changesAlong, List.mem_map, mem_sortByDate, List.mem_filter,
      decide_eq_true_eq] at hk hk'
    obtain ⟨p, ⟨-, rfl⟩, rfl⟩ := hk
    obtain ⟨q, ⟨-, rfl⟩, hq⟩ := hk'
    exact hne (congrArg Prod.snd hq).symm

omit h in
/-- Each point has a lagged change, and nothing else has one. -/
theorem mem_keys_lagChanges {k : String × String × Option String} :
    k ∈ (lagChanges points).map ChangeRecord.key ↔ k ∈ points.map key := by
  simp only [lagChanges, List.map_flatMap, keys_changesAlong, List.mem_flatMap, List.mem_map,
    mem_sortByDate, List.mem_filter, decide_eq_true_eq, mem_parts]
  constructor
  · rintro ⟨_, -, p, ⟨hp, -⟩, rfl⟩
    exact ⟨p, hp, rfl⟩
  · rintro ⟨p, hp, rfl⟩
    exact ⟨p.part, ⟨p, hp, rfl⟩, p, ⟨hp, rfl⟩, rfl⟩

/-- A lagged change goes from the latest earlier point of the part. -/
theorem of_mem_lagChanges {r : ChangeRecord} (hr : r ∈ lagChanges points) :
    ∃ p ∈ points, ∃ prior, IsPrior points p prior ∧ r = changeFrom prior p := by
  obtain ⟨part', -, hr⟩ := List.mem_flatMap.1 hr
  obtain ⟨before, p, after, hsorted, rfl⟩ := of_mem_changesAlong hr
  have hmem : ∀ q, q ∈ before ++ p :: after ↔ q ∈ points ∧ q.part = part' := by
    intro q
    rw [← hsorted, mem_sortByDate, List.mem_filter, decide_eq_true_eq]
  have hpairwise := pairwise_part h part'
  rw [hsorted, List.pairwise_append] at hpairwise
  obtain ⟨hbefore, hafter, hbetween⟩ := hpairwise
  obtain ⟨hp, rfl⟩ := (hmem p).1 (by simp)
  rw [Option.or_none]
  refine ⟨p, hp, before.getLast?, ⟨fun q hq => ?_, fun q hq hpart hlt => ?_⟩, rfl⟩
  · have hqb := List.mem_of_getLast? hq
    obtain ⟨hqp, hpart⟩ := (hmem q).1 (List.mem_append_left _ hqb)
    exact ⟨hqp, hpart, hbetween q hqb p List.mem_cons_self⟩
  · have hqb : q ∈ before := by
      rcases List.mem_append.1 ((hmem q).2 ⟨hq, hpart⟩) with hqb | hqa
      · exact hqb
      · rcases List.mem_cons.1 hqa with rfl | hqa
        · exact absurd hlt (lt_irrefl _)
        · exact absurd hlt (lt_asymm (List.rel_of_pairwise_cons hafter hqa))
    obtain ⟨init, q', rfl⟩ := (List.eq_nil_or_concat' before).resolve_left (List.ne_nil_of_mem hqb)
    refine ⟨q', by simp, ?_⟩
    rcases List.mem_append.1 hqb with hinit | hlast
    · exact ((List.pairwise_append.1 hbefore).2.2 q hinit q' (by simp)).le
    · rw [List.mem_singleton.1 hlast]

end SeriesPoint

end Bourse
