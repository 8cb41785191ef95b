import Mathlib.Data.List.Forall2
import Mathlib.Data.List.Induction
import Bourse.Proofs.Change.Pivot

/-!
# Pivots, record by record

A pivot has a row for each entity with a matching record, in the order of the first ones, and each
slot holds the change of the last record for it (`IsPivot`). It is what entering the records one
after another gives (`pivot_eq_foldl`): a record that matches a slot changes the row of its entity,
or opens one at the end (`pivot_concat`), and one that matches none changes nothing.
-/

namespace Bourse

namespace PivotSlots

variable (slots : PivotSlots)

/-- What a record is told by: its prior date, or its report line. -/
def key? (r : ChangeRecord) : Option String :=
  match slots with
  | byDate _ => r.priorDate
  | byLine _ => r.report

/-- What a key or a label stands for; with report lines case does not matter. -/
def fold (text : String) : String :=
  match slots with
  | byDate _ => text
  | byLine _ => Text.lower text

def Matches (label : String) (r : ChangeRecord) : Prop :=
  ∃ key, slots.key? r = some key ∧ slots.fold key = slots.fold label

/-- A record for one of the slots. -/
def Takes (r : ChangeRecord) : Prop :=
  ∃ label ∈ slots.labels, slots.Matches label r

variable {slots} {label : String} {r : ChangeRecord}

theorem accepts_iff : slots.accepts label r = true ↔ slots.Matches label r := by
  cases slots with
  | byDate dates => simp [accepts, Matches, key?, fold]
  | byLine lines =>
    rw [accepts, Option.any_eq_true]
    simp only [Matches, key?, fold, beq_iff_eq, eq_comm (a := Text.lower label)]

theorem acceptsAny_iff : slots.acceptsAny r = true ↔ slots.Takes r := by
  simp only [acceptsAny, List.any_eq_true, accepts_iff, Takes]

instance : Decidable (slots.Matches label r) :=
  decidable_of_iff _ accepts_iff

instance : DecidablePred slots.Takes :=
  fun _ => decidable_of_iff _ acceptsAny_iff

theorem not_takes_of_key_none (h : slots.key? r = none) : ¬slots.Takes r := by
  rintro ⟨label, -, key, hkey, -⟩
  cases h.symm.trans hkey

variable (slots)

/-- The change of a record goes to the slots of its entity's row that it matches. -/
def fill (r : ChangeRecord) (row : PivotRow) : PivotRow :=
  if row.entity = r.entity then
    ⟨row.entity, List.zipWith (fun label change =>
      if slots.Matches label r then r.percentChange else change) slots.labels row.slots⟩
  else row

/-- The rows with one more record, for which a row is opened when its entity has none yet. -/
def enter (rows : List PivotRow) (r : ChangeRecord) : List PivotRow :=
  if slots.Takes r then
    if r.entity ∈ rows.map (·.entity) then rows.map (slots.fill r)
    else rows ++ [slots.fill r ⟨r.entity, slots.labels.map fun _ => none⟩]
  else rows

end PivotSlots

variable {slots : PivotSlots} {records : List ChangeRecord} {entity label : String}

theorem finds_iff {r : ChangeRecord} : (r.entity == entity && slots.accepts label r) = true ↔
    r.entity = entity ∧ slots.Matches label r := by
  rw [Bool.and_eq_true, beq_iff_eq, PivotSlots.accepts_iff]

theorem slotValue_concat (r : ChangeRecord) : slotValue slots (records ++ [r]) entity label
    = if r.entity = entity ∧ slots.Matches label r then r.percentChange
      else slotValue slots records entity label := by
  simp only [slotValue, List.findRev?_eq_find?_reverse, List.reverse_append, List.reverse_singleton,
    List.singleton_append, List.find?_cons]
  split_ifs with hmatch
  · rw [finds_iff.2 hmatch]
    rfl
  · rw [Bool.eq_false_iff.2 (finds_iff.not.2 hmatch)]

theorem slotValue_eq_none (h : entity ∉ pivotEntities slots records)
    (hlabel : label ∈ slots.labels) : slotValue slots records entity label = none := by
  refine slotValue_eq (fun r hr hentity haccepts => (h ?_).elim) fun _ => rfl
  exact mem_pivotEntities.2 ⟨r, hr, List.any_eq_true.2 ⟨label, hlabel, haccepts⟩, hentity⟩

theorem pivotEntities_concat (r : ChangeRecord) : pivotEntities slots (records ++ [r])
    = if slots.Takes r ∧ r.entity ∉ pivotEntities slots records
      then pivotEntities slots records ++ [r.entity] else pivotEntities slots records := by
  by_cases htakes : slots.Takes r
  · have hfilter : (records ++ [r]).filter slots.acceptsAny
        = records.filter slots.acceptsAny ++ [r] := by
      rw [List.filter_append, List.filter_singleton, PivotSlots.acceptsAny_iff.2 htakes, cond_true]
    rw [pivotEntities, hfilter, List.map_append, List.map_singleton, eraseDups_concat]
    simp only [htakes, true_and, pivotEntities, List.mem_eraseDups, ite_not]
  · have hfilter : (records ++ [r]).filter slots.acceptsAny = records.filter slots.acceptsAny := by
      rw [← PivotSlots.acceptsAny_iff, Bool.not_eq_true] at htakes
      rw [List.filter_append, List.filter_singleton, htakes, cond_false, List.append_nil]
    rw [if_neg fun h => htakes h.1, pivotEntities, hfilter, pivotEntities]

/-- A row with one more record is the row before, filled. -/
theorem row_concat (r : ChangeRecord) (entity : String) :
    (⟨entity, slots.labels.map (slotValue slots (records ++ [r]) entity)⟩ : PivotRow)
      = slots.fill r ⟨entity, slots.labels.map (slotValue slots records entity)⟩ := by
  rw [PivotSlots.fill]
  split_ifs with hentity
  · rw [List.zipWith_map_right, List.zipWith_self]
    refine congrArg (PivotRow.mk entity) (List.map_congr_left fun label _ => ?_)
    simp only [slotValue_concat, ← hentity, true_and]
  · refine congrArg (PivotRow.mk entity) (List.map_congr_left fun label _ => ?_)
    rw [slotValue_concat, if_neg fun h => hentity h.1.symm]

theorem row_of_not_takes {r : ChangeRecord} (h : ¬slots.Takes r) (entity : String) :
    slots.labels.map (slotValue slots (records ++ [r]) entity)
      = slots.labels.map (slotValue slots records entity) := by
  refine List.map_congr_left fun label hlabel => ?_
  rw [slotValue_concat, if_neg fun hmatch => h ⟨label, hlabel, hmatch.2⟩]

/-- What one more record does to a pivot. -/
theorem pivot_concat (r : ChangeRecord) :
    pivot slots (records ++ [r]) = slots.enter (pivot slots records) r := by
  have hrows : (pivotEntities slots records).map (fun entity => (⟨entity,
      slots.labels.map (slotValue slots (records ++ [r]) entity)⟩ : PivotRow))
        = (pivot slots records).map (slots.fill r) := by
    rw [pivot, List.map_map]
    exact List.map_congr_left fun entity _ => row_concat r entity
  rw [PivotSlots.enter, entities_pivot, pivot, pivotEntities_concat]
  by_cases htakes : slots.Takes r
  · by_cases hold : r.entity ∈ pivotEntities slots records
    · rw [if_neg fun h => h.2 hold, if_pos htakes, if_pos hold, hrows]
    · -- no row is filled but the one that is opened, whose slots are empty before
      have hothers : (pivot slots records).map (slots.fill r) = pivot slots records := by
        refine (List.map_congr_left fun row hrow => ?_).trans (List.map_id _)
        refine if_neg fun hentity => hold ?_
        rw [← entities_pivot, ← hentity]
        exact List.mem_map_of_mem hrow
      have hempty : slots.labels.map (slotValue slots records r.entity)
          = slots.labels.map fun _ => none :=
        List.map_congr_left fun label hlabel => slotValue_eq_none hold hlabel
      rw [if_pos ⟨htakes, hold⟩, if_pos htakes, if_neg hold, List.map_append, hrows, hothers,
        List.map_singleton, row_concat, hempty]
  · rw [if_neg fun h => htakes h.1, if_neg htakes]
    simp only [row_of_not_takes htakes]
    rfl

/-- A pivot is what entering its records one after another gives. -/
theorem pivot_eq_foldl (slots : PivotSlots) (records : List ChangeRecord) :
    pivot slots records = records.foldl slots.enter [] := by
  induction records using List.reverseRecOn with
  | nil => rfl
  | append_singleton records r ih =>
    rw [pivot_concat, ih, List.foldl_append, List.foldl_cons, List.foldl_nil]

theorem pivot_of_not_takes {r : ChangeRecord} (h : ¬slots.Takes r)
    (before after : List ChangeRecord) :
    pivot slots (before ++ r :: after) = pivot slots (before ++ after) := by
  rw [pivot_eq_foldl, pivot_eq_foldl, List.foldl_append, List.foldl_append, List.foldl_cons]
  exact congrArg (after.foldl slots.enter) (if_neg h)

section

variable (slots records)

/-- The place of an entity's first matching record. -/
def firstMatch (entity : String) : ℕ :=
  records.findIdx fun r => r.entity = entity ∧ slots.Takes r

/-- What a slot holds: the change of the entity's last record for it, and nothing without one. -/
inductive Fills (entity label : String) : Option Float → Prop
  | last (before : List ChangeRecord) (r : ChangeRecord) (after : List ChangeRecord)
      (hrecords : records = before ++ r :: after) (hentity : r.entity = entity)
      (hmatch : slots.Matches label r)
      (hlast : ∀ s ∈ after, s.entity = entity → ¬slots.Matches label s) :
      Fills entity label r.percentChange
  | none (hnone : ∀ r ∈ records, r.entity = entity → ¬slots.Matches label r) :
      Fills entity label none

/-- One row for each entity with a matching record, in the order of the first ones, with a slot for
each label. -/
structure IsPivot (rows : List PivotRow) : Prop where
  entities : ∀ entity, entity ∈ rows.map (·.entity) ↔
    ∃ r ∈ records, r.entity = entity ∧ slots.Takes r
  ordered : (rows.map (·.entity)).Pairwise fun a b =>
    firstMatch slots records a < firstMatch slots records b
  filled : ∀ row ∈ rows, List.Forall₂ (Fills slots records row.entity) slots.labels row.slots

end

theorem mem_pivotEntities_iff : entity ∈ pivotEntities slots records ↔
    ∃ r ∈ records, r.entity = entity ∧ slots.Takes r := by
  simp only [mem_pivotEntities, PivotSlots.acceptsAny_iff, and_comm (a := slots.Takes _)]

theorem firstMatch_lt_iff : firstMatch slots records entity < records.length ↔
    entity ∈ pivotEntities slots records := by
  simp only [firstMatch, List.findIdx_lt_length, mem_pivotEntities_iff, decide_eq_true_eq]

theorem firstMatch_concat (h : entity ∈ pivotEntities slots records) (r : ChangeRecord) :
    firstMatch slots (records ++ [r]) entity = firstMatch slots records entity := by
  rw [firstMatch, List.findIdx_append]
  exact if_pos (firstMatch_lt_iff.2 h)

theorem le_firstMatch_concat (h : entity ∉ pivotEntities slots records) (r : ChangeRecord) :
    records.length ≤ firstMatch slots (records ++ [r]) entity := by
  rw [firstMatch, List.findIdx_append]
  exact Nat.le_trans (Nat.le_add_left _ _)
    (Nat.le_of_eq (if_neg (firstMatch_lt_iff.not.2 h)).symm)

/-- An entity's row opens with its first matching record. -/
theorem pairwise_pivotEntities (slots : PivotSlots) (records : List ChangeRecord) :
    (pivotEntities slots records).Pairwise fun a b =>
      firstMatch slots records a < firstMatch slots records b := by
  induction records using List.reverseRecOn with
  | nil => exact List.Pairwise.nil
  | append_singleton records r ih =>
    have hold : (pivotEntities slots records).Pairwise fun a b =>
        firstMatch slots (records ++ [r]) a < firstMatch slots (records ++ [r]) b := by
      refine ih.imp_of_mem fun {a b} ha hb hab => ?_
      rwa [firstMatch_concat ha, firstMatch_concat hb]
    rw [pivotEntities_concat]
    split_ifs with hnew
    · refine List.pairwise_append.2 ⟨hold, List.pairwise_singleton _ _, fun a ha b hb => ?_⟩
      rw [List.mem_singleton.1 hb, firstMatch_concat ha]
      exact Nat.lt_of_lt_of_le (firstMatch_lt_iff.2 ha) (le_firstMatch_concat hnew.2 r)
    · exact hold

theorem fills_iff {x : Option Float} : Fills slots records entity label x ↔
    slotValue slots records entity label = x := by
  rw [slotValue, List.findRev?_eq_find?_reverse]
  constructor
  · rintro (⟨before, r, after, rfl, hentity, hmatch, hlast⟩ | hnone)
    · have hfind : (before ++ r :: after).reverse.find? (fun r =>
          r.entity == entity && slots.accepts label r) = some r := by
        refine List.find?_eq_some_iff_append.2 ⟨finds_iff.2 ⟨hentity, hmatch⟩, after.reverse,
          before.reverse, by simp, fun s hs => ?_⟩
        rw [Bool.not_eq_true', ← Bool.not_eq_true, finds_iff]
        exact fun h => hlast s (List.mem_reverse.1 hs) h.1 h.2
      rw [hfind, Option.bind_some]
    · have hfind : records.reverse.find? (fun r =>
          r.entity == entity && slots.accepts label r) = none := by
        refine List.find?_eq_none.2 fun s hs => ?_
        rw [finds_iff]
        exact fun h => hnone s (List.mem_reverse.1 hs) h.1 h.2
      rw [hfind, Option.bind_none]
  · rintro rfl
    cases hfind : records.reverse.find? fun r => r.entity == entity && slots.accepts label r with
    | none =>
      refine .none fun r hr hentity hmatch => ?_
      exact List.find?_eq_none.1 hfind r (List.mem_reverse.2 hr) (finds_iff.2 ⟨hentity, hmatch⟩)
    | some r =>
      obtain ⟨hr, later, earlier, hsplit, hlater⟩ := List.find?_eq_some_iff_append.1 hfind
      obtain ⟨hentity, hmatch⟩ := finds_iff.1 hr
      refine .last earlier.reverse r later.reverse ?_ hentity hmatch fun s hs he hm => ?_
      · rw [← List.reverse_reverse records, hsplit]
        simp
      · have hnot := hlater s (List.mem_reverse.1 hs)
        rw [finds_iff.2 ⟨he, hm⟩] at hnot
        cases hnot

theorem filled_iff {values : List (Option Float)} :
    List.Forall₂ (Fills slots records entity) slots.labels values ↔
      values = slots.labels.map (slotValue slots records entity) := by
  have hfills : Fills slots records entity
      = fun label x => slotValue slots records entity label = x := by
    funext label x
    exact propext fills_iff
  rw [hfills, ← List.forall₂_map_left_iff, List.forall₂_eq_eq_eq, eq_comm]

/-- The pivot is the one list of such rows. -/
theorem isPivot_iff {rows : List PivotRow} :
    IsPivot slots records rows ↔ rows = pivot slots records := by
  constructor
  · intro h
    have hentities : rows.map (·.entity) = pivotEntities slots records :=
      eq_of_pairwise (fun hab hba => Nat.lt_asymm hab hba) h.ordered
        (pairwise_pivotEntities slots records) fun entity => by
          rw [h.entities, mem_pivotEntities_iff]
    rw [pivot, ← hentities, List.map_map]
    refine (List.map_id rows).symm.trans (List.map_congr_left fun row hrow => ?_)
    exact congrArg (PivotRow.mk row.entity) (filled_iff.1 (h.filled row hrow))
  · rintro rfl
    constructor
    case entities =>
      intro entity
      rw [entities_pivot, mem_pivotEntities_iff]
    case ordered =>
      rw [entities_pivot]
      exact pairwise_pivotEntities slots records
    case filled =>
      intro row hrow
      obtain ⟨entity, -, rfl⟩ := List.mem_map.1 hrow
      exact filled_iff.2 rfl

theorem slotValue_congr {label' : String} (h : slots.fold label = slots.fold label') :
    slotValue slots records entity label = slotValue slots records entity label' := by
  have haccepts : ∀ r, slots.accepts label r = slots.accepts label' r := fun r => by
    rw [Bool.eq_iff_iff, PivotSlots.accepts_iff, PivotSlots.accepts_iff, PivotSlots.Matches, h,
      PivotSlots.Matches]
  simp only [slotValue, haccepts]

/-- A pivot has one row for each entity with a matching record, in the order of the first ones, and
slots that hold the last changes, the same ones for the same label. Records without a key or for no
slot are left out. -/
theorem pivot_rows (slots : PivotSlots) (records : List ChangeRecord) :
    (∀ rows, IsPivot slots records rows ↔ rows = pivot slots records) ∧
    ((pivot slots records).map (·.entity)).Nodup ∧
    (∀ row ∈ pivot slots records, row.slots.length = slots.depth ∧
      ∀ i j : ℕ, slots.labels[i]?.map slots.fold = slots.labels[j]?.map slots.fold →
        row.slots[i]? = row.slots[j]?) ∧
    ∀ before r after, records = before ++ r :: after →
      (slots.key? r = none ∨ ∀ label ∈ slots.labels, ¬slots.Matches label r) →
        pivot slots records = pivot slots (before ++ after) := by
  refine ⟨fun rows => isPivot_iff, ?_, fun row hrow => ?_, ?_⟩
  · rw [entities_pivot]
    exact nodup_pivotEntities slots records
  · obtain ⟨entity, -, rfl⟩ := List.mem_map.1 hrow
    refine ⟨List.length_map _, fun i j hlabels => ?_⟩
    rw [List.getElem?_map, List.getElem?_map]
    cases hi : slots.labels[i]? with
    | none =>
      rw [hi, Option.map_none, eq_comm, Option.map_eq_none_iff] at hlabels
      rw [hlabels]
    | some label =>
      rw [hi, Option.map_some, eq_comm, Option.map_eq_some_iff] at hlabels
      obtain ⟨label', hj, hsame⟩ := hlabels
      rw [hj, Option.map_some, Option.map_some, slotValue_congr hsame.symm]
  · rintro before r after rfl hskipped
    refine pivot_of_not_takes ?_ before after
    rcases hskipped with hkey | hnone
    · exact PivotSlots.not_takes_of_key_none hkey
    · rintro ⟨label, hlabel, hmatch⟩
      exact hnone label hlabel hmatch

/-- Of two records for one line the later one counts, and one for no line is left out. -/
theorem pivot_rows_lines :
    let change (entity line : String) (x : Float) : ChangeRecord :=
      ⟨"2024Q1", entity, none, some line, none, none, some x⟩
    let records := [change "AAA" "DEBT" 1, change "BBB" "Other" 2, change "AAA" "debt" 3]
    pivot (.byLine ["Debt"]) records
        = pivot (.byLine ["Debt"]) [change "AAA" "DEBT" 1, change "AAA" "debt" 3] ∧
      IsPivot (.byLine ["Debt"]) records [⟨"AAA", [some 3]⟩] := by
  intro change records
  obtain ⟨hpivot, -, -, hskipped⟩ := pivot_rows (.byLine ["Debt"]) records
  refine ⟨hskipped [change "AAA" "DEBT" 1] (change "BBB" "Other" 2) [change "AAA" "debt" 3] rfl
    (.inr (by decide +kernel)), (hpivot _).2 rfl⟩

end Bourse
