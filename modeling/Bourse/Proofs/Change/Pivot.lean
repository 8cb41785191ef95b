import Bourse.Change.Pivot
import Bourse.Proofs.List.Distinct

/-!
# Pivots

Each entity with a matching record has one row of a pivot (`nodup_pivotEntities`,
`mem_pivotEntities`). A slot holds the change that all of the entity's records for it have
(`slotValue_eq`). So when no slot has two records of one entity, a slot holds the change of its one
record (`slotValue_eq_some_iff`), and the rows are the same whatever order the records come in
(`pivot_perm`).
-/

namespace Bourse

variable {slots : PivotSlots} {records : List ChangeRecord} {entity label : String}

theorem nodup_pivotEntities (slots : PivotSlots) (records : List ChangeRecord) :
    (pivotEntities slots records).Nodup :=
  nodup_eraseDups _

theorem mem_pivotEntities : entity ∈ pivotEntities slots records ↔
    ∃ r ∈ records, slots.acceptsAny r = true ∧ r.entity = entity := by
  simp only [pivotEntities, List.mem_eraseDups, List.mem_map, List.mem_filter, and_assoc]

theorem entities_pivot : (pivot slots records).map (·.entity) = pivotEntities slots records := by
  rw [pivot, List.map_map]
  exact List.map_id _

/-- A slot holds the change of the entity's records for it, when these have but one, and none
without such records. -/
theorem slotValue_eq {change : Option Float}
    (hall : ∀ r ∈ records, r.entity = entity → slots.accepts label r = true →
      r.percentChange = change)
    (hnone : (∀ r ∈ records, r.entity = entity → slots.accepts label r = false) → change = none) :
    slotValue slots records entity label = change := by
  rw [slotValue, List.findRev?_eq_find?_reverse]
  cases hfind : records.reverse.find? fun r => r.entity == entity && slots.accepts label r with
  | none =>
    rw [List.find?_eq_none] at hfind
    refine (hnone fun r hr he => ?_).symm
    simpa [he] using hfind r (List.mem_reverse.2 hr)
  | some r =>
    have hmem := List.mem_reverse.1 (List.mem_of_find?_eq_some hfind)
    have haccepts := List.find?_some hfind
    rw [Bool.and_eq_true, beq_iff_eq] at haccepts
    exact hall r hmem haccepts.1 haccepts.2

/-- No slot has two records of one entity. -/
def PivotSlots.Distinct (slots : PivotSlots) (records : List ChangeRecord) : Prop :=
  ∀ label ∈ slots.labels, ∀ r ∈ records, ∀ s ∈ records, slots.accepts label r = true →
    slots.accepts label s = true → r.entity = s.entity → r = s

/-- A slot has a change when one of the entity's records for it has it. -/
theorem slotValue_eq_some_iff (hdistinct : slots.Distinct records) (hlabel : label ∈ slots.labels)
    {x : Float} : slotValue slots records entity label = some x ↔
      ∃ r ∈ records, r.entity = entity ∧ slots.accepts label r = true ∧
        r.percentChange = some x := by
  constructor
  · intro hvalue
    rw [slotValue, List.findRev?_eq_find?_reverse, Option.bind_eq_some_iff] at hvalue
    obtain ⟨r, hfind, hx⟩ := hvalue
    have hmatch := List.find?_some hfind
    rw [Bool.and_eq_true, beq_iff_eq] at hmatch
    exact ⟨r, List.mem_reverse.1 (List.mem_of_find?_eq_some hfind), hmatch.1, hmatch.2, hx⟩
  · rintro ⟨r, hr, rfl, haccepts, hx⟩
    refine slotValue_eq (fun s hs hentity haccepts' => ?_) fun hnone => ?_
    · rw [hdistinct label hlabel s hs r hr haccepts' haccepts hentity, hx]
    · cases (hnone r hr rfl).symm.trans haccepts

variable {records' : List ChangeRecord} (hdistinct : slots.Distinct records)
  (hperm : records.Perm records')

include hdistinct hperm

theorem slotValue_perm (hlabel : label ∈ slots.labels) (entity : String) :
    slotValue slots records entity label = slotValue slots records' entity label := by
  rw [slotValue, slotValue, findRev?_perm hperm fun r hr s hs hpr hps => ?_]
  simp only [Bool.and_eq_true, beq_iff_eq] at hpr hps
  exact hdistinct label hlabel r hr s hs hpr.2 hps.2 (hpr.1.trans hps.1.symm)

/-- The rows of a pivot are the same ones whatever order its records come in. -/
theorem pivot_perm : (pivot slots records).Perm (pivot slots records') := by
  have hentities : (pivotEntities slots records).Perm (pivotEntities slots records') := by
    refine (List.perm_ext_iff_of_nodup (nodup_pivotEntities _ _) (nodup_pivotEntities _ _)).2 ?_
    intro entity
    simp only [mem_pivotEntities, hperm.mem_iff]
  have hslots : ∀ entity, slots.labels.map (slotValue slots records entity)
      = slots.labels.map (slotValue slots records' entity) := fun entity =>
    List.map_congr_left fun label hlabel => slotValue_perm hdistinct hperm hlabel entity
  simp only [pivot, hslots]
  exact hentities.map _

end Bourse
