import Bourse.Proofs.Change.Lag
import Bourse.Proofs.List.Stable

/-!
# Lagged changes, part by part

Lagged changes are the points of a series in the order of their parts, by date within a part and as
they come in on one date, each compared with the one before it in its part (`IsLagged`). Only one
list of records is so (`isLagged_iff`), also where values are missing or a date is given twice. It
holds the changes of each part in one piece (`filter_lagChanges`), so no point is compared with one
of another part.
-/

namespace Bourse

open Std (TransCmp LawfulEqCmp)

namespace ChangeRecord

/-- The entity and report line of a record. -/
def part (r : ChangeRecord) : String × Option String :=
  (r.entity, r.report)

/-- The point that a record gives the change at. -/
def point (r : ChangeRecord) : SeriesPoint :=
  ⟨r.date, r.entity, r.report, r.currentValue⟩

/-- The record starts from the date and value of `prior`, or from nothing. -/
def StartsFrom (prior : Option SeriesPoint) (r : ChangeRecord) : Prop :=
  r.priorDate = prior.map (·.date) ∧ r.priorValue = prior.bind (·.value)

end ChangeRecord

/-- Records that start from `prior` and then each from the one before, with the change of the two
values. -/
structure ChangesFrom (prior : Option SeriesPoint) (records : List ChangeRecord) : Prop where
  first : ∀ r ∈ records.head?, r.StartsFrom prior
  next : records.IsChain fun q r => r.StartsFrom (some q.point)
  change : ∀ r ∈ records, r.percentChange = percentChange r.priorValue r.currentValue

/-- One record for each point of a series, part by part and by date, in the order of the points on
one date, each part followed from its first point on. -/
structure IsLagged (points : List SeriesPoint) (records : List ChangeRecord) : Prop where
  perm : (records.map (·.point)).Perm points
  ordered : records.Pairwise fun a b =>
    PartBefore a.part b.part ∨ a.part = b.part ∧ a.date ≤ b.date
  stable : ∀ key, (records.map (·.point)).filter (fun p => p.key = key)
    = points.filter fun p => p.key = key
  followed : ∀ part, ChangesFrom none (records.filter fun r => r.part = part)

namespace SeriesPoint

theorem points_changesAlong : ∀ (prior : Option SeriesPoint) (points : List SeriesPoint),
    (changesAlong prior points).map (·.point) = points
  | _, [] => rfl
  | _, p :: rest => congrArg (p :: ·) (points_changesAlong (some p) rest)

theorem changesFrom_changesAlong : ∀ (prior : Option SeriesPoint) (points : List SeriesPoint),
    ChangesFrom prior (changesAlong prior points)
  | _, [] => ⟨by simp [changesAlong], .nil, by simp [changesAlong]⟩
  | prior, p :: rest => by
    obtain ⟨hfirst, hnext, hchange⟩ := changesFrom_changesAlong (some p) rest
    refine ⟨?_, List.isChain_cons.2 ⟨hfirst, hnext⟩, List.forall_mem_cons.2 ⟨rfl, hchange⟩⟩
    rintro r ⟨⟩
    exact ⟨rfl, rfl⟩

/-- The changes along a part are settled by its points. -/
theorem eq_changesAlong : ∀ {records : List ChangeRecord} {prior : Option SeriesPoint},
    ChangesFrom prior records → records = changesAlong prior (records.map (·.point))
  | [], _, _ => rfl
  | r :: rest, prior, h => by
    obtain ⟨hfirst, hnext⟩ := List.isChain_cons.1 h.next
    have hrest : ChangesFrom (some r.point) rest :=
      ⟨hfirst, hnext, fun s hs => h.change s (List.mem_cons_of_mem r hs)⟩
    have hr : r = changeFrom prior r.point := by
      obtain ⟨hdate, hvalue⟩ := h.first r rfl
      have hchange := h.change r List.mem_cons_self
      rw [hvalue] at hchange
      cases r
      simp_all [changeFrom, ChangeRecord.make, ChangeRecord.point]
    rw [List.map_cons, changesAlong, ← hr, ← eq_changesAlong hrest]

variable (points : List SeriesPoint)

theorem part_of_mem_changes {part' : String × Option String} {r : ChangeRecord}
    (h : r ∈ changesAlong none (sortByDate (points.filter fun p => p.part = part'))) :
    r.part = part' := by
  have hpoint := List.mem_map_of_mem (f := ChangeRecord.point) h
  rw [points_changesAlong, mem_sortByDate, List.mem_filter] at hpoint
  exact of_decide_eq_true hpoint.2

theorem filter_part_eq_nil {part' : String × Option String} (h : part' ∉ parts points) :
    points.filter (fun p => p.part = part') = [] := by
  refine List.filter_eq_nil_iff.2 fun p hp hpart => h (mem_parts.2 ⟨p, hp, ?_⟩)
  exact of_decide_eq_true hpart

/-- The lagged changes of a part are in one piece. -/
theorem filter_lagChanges (part' : String × Option String) :
    (lagChanges points).filter (fun r => r.part = part')
      = changesAlong none (sortByDate (points.filter fun p => p.part = part')) := by
  refine filter_flatMap_key (fun _ _ => part_of_mem_changes points) (nodup_parts points)
    (fun k hk => ?_) part'
  rw [filter_part_eq_nil points hk, sortByDate, List.mergeSort_nil, changesAlong]

theorem not_partBefore_self (part' : String × Option String) : ¬PartBefore part' part' := by
  have hself : comparePart part' part' = .eq := Std.ReflCmp.compare_self
  rw [← comparePart_lt_iff, hself]
  nofun

theorem pairwise_parts : (parts points).Pairwise PartBefore :=
  (pairwise_eraseReps_mergeSort _).imp fun {a b} hlt => (comparePart_lt_iff a b).1 hlt

theorem pairwise_sortByDate : (sortByDate points).Pairwise (·.date ≤ ·.date) := by
  have hsorted : (sortByDate points).Pairwise fun p q => (compare p.date q.date).isLE :=
    List.pairwise_mergeSort (fun _ _ _ => TransCmp.isLE_trans)
      (fun p q => isLE_total p.date q.date) points
  exact hsorted.imp fun hle => (isLE_compare_iff _ _).1 hle

theorem filter_sortByDate (date : String) : (sortByDate points).filter (fun p => p.date = date)
    = points.filter fun p => p.date = date := by
  refine filter_mergeSort (fun _ _ _ => TransCmp.isLE_trans) (fun p q => isLE_total p.date q.date)
    (fun p q hp hq => ?_) points
  rw [isLE_compare_iff, of_decide_eq_true hp, of_decide_eq_true hq]

theorem filter_key (date : String) (part' : String × Option String) :
    points.filter (fun p => p.key = (date, part'))
      = (points.filter fun p => p.part = part').filter fun p => p.date = date := by
  simp only [List.filter_filter, key, Prod.mk.injEq, Bool.decide_and]

theorem points_filter_part (records : List ChangeRecord) (part' : String × Option String) :
    (records.filter fun r => r.part = part').map (·.point)
      = (records.map (·.point)).filter fun p => p.part = part' := by
  rw [List.filter_map]
  rfl

theorem isLagged_lagChanges : IsLagged points (lagChanges points) := by
  have hstable : ∀ key, ((lagChanges points).map (·.point)).filter (fun p => p.key = key)
      = points.filter fun p => p.key = key := by
    rintro ⟨date, part'⟩
    rw [filter_key, filter_key, ← points_filter_part, filter_lagChanges, points_changesAlong,
      filter_sortByDate]
  refine ⟨perm_of_filter_key hstable, ?_, hstable, fun part' => ?_⟩
  · refine List.pairwise_flatMap.2 ⟨fun part' _ => ?_, (pairwise_parts points).imp ?_⟩
    · have hdates := pairwise_sortByDate (points.filter fun p => p.part = part')
      rw [← points_changesAlong none (sortByDate _), List.pairwise_map] at hdates
      refine hdates.imp_of_mem fun ha hb hdate => .inr ⟨?_, hdate⟩
      rw [part_of_mem_changes points ha, part_of_mem_changes points hb]
    · intro a b hab r hr s hs
      left
      rwa [part_of_mem_changes points hr, part_of_mem_changes points hs]
  · rw [filter_lagChanges]
    exact changesFrom_changesAlong none _

end SeriesPoint

namespace IsLagged

open SeriesPoint

variable {points : List SeriesPoint} {records : List ChangeRecord} (h : IsLagged points records)

include h

/-- The points of a part in the order of its records. -/
theorem points_eq (part' : String × Option String) :
    (records.filter fun r => r.part = part').map (·.point)
      = sortByDate (points.filter fun p => p.part = part') := by
  refine eq_of_filter_eq (fun p q => q.date = p.date) (fun _ => rfl)
    (fun hpq hqp => le_antisymm hqp hpq) ?_ (pairwise_sortByDate _) fun p => ?_
  · rw [List.pairwise_map, List.pairwise_filter]
    refine h.ordered.imp fun {a b} hab ha hb => ?_
    rcases hab with hbefore | ⟨-, hdate⟩
    · rw [of_decide_eq_true ha, of_decide_eq_true hb] at hbefore
      exact absurd hbefore (not_partBefore_self part')
    · exact hdate
  · rw [points_filter_part, filter_sortByDate, ← filter_key, ← filter_key, h.stable]

theorem part_isLE :
    records.Pairwise fun a b => (comparePart a.part b.part).isLE := by
  refine h.ordered.imp fun {a b} hab => ?_
  rcases hab with hbefore | ⟨hpart, -⟩
  · rw [(comparePart_lt_iff _ _).2 hbefore]
    rfl
  · rw [hpart]
    exact Std.ReflCmp.isLE_rfl

end IsLagged

namespace SeriesPoint

/-- The lagged changes are the one such list of records. -/
theorem isLagged_iff {points : List SeriesPoint} {records : List ChangeRecord} :
    IsLagged points records ↔ records = lagChanges points := by
  constructor
  · intro h
    refine eq_of_filter_eq (fun a b => b.part = a.part) (fun _ => rfl) (fun hab hba => ?_)
      h.part_isLE (isLagged_lagChanges points).part_isLE fun a => ?_
    · exact LawfulEqCmp.eq_of_compare (Std.OrientedCmp.isLE_antisymm hba hab)
    · rw [eq_changesAlong (h.followed a.part), h.points_eq, filter_lagChanges]
  · rintro rfl
    exact isLagged_lagChanges points

theorem nodup_keys {points : List SeriesPoint}
    (h : points.Pairwise fun p q => p.part = q.part → p.date ≠ q.date) :
    (points.map key).Nodup := by
  refine List.pairwise_map.2 (h.imp fun hdates hkey => ?_)
  obtain ⟨hdate, hpart⟩ := Prod.ext_iff.1 hkey
  exact hdates hpart hdate

/-- A series has one list of lagged changes, which is the same for every order of the points when no
part has two on one date. -/
theorem lagChanges_parts (points : List SeriesPoint) :
    (∀ records, IsLagged points records ↔ records = lagChanges points) ∧
    ((points.Pairwise fun p q => p.part = q.part → p.date ≠ q.date) →
      ∀ points', points.Perm points' → lagChanges points' = lagChanges points) :=
  ⟨fun _ => isLagged_iff, fun h _ hperm => (lagChanges_perm (nodup_keys h) hperm).symm⟩

/-- Points of two lines, one of them without a value, in two orders. -/
theorem lagChanges_parts_reversed :
    let points : List SeriesPoint := [⟨"2023Q3", "Banking", none, some 120⟩,
      ⟨"2023Q2", "Banking", some "eps", some 5⟩, ⟨"2023Q2", "Banking", none, none⟩]
    (points.Pairwise fun p q => p.part = q.part → p.date ≠ q.date) ∧
      IsLagged points (lagChanges points.reverse) := by
  intro points
  have hdates : points.Pairwise fun p q => p.part = q.part → p.date ≠ q.date := by decide
  obtain ⟨hlagged, horder⟩ := lagChanges_parts points
  exact ⟨hdates, (hlagged _).2 (horder hdates _ (List.reverse_perm points).symm)⟩

end SeriesPoint

end Bourse
