import Bourse.Proofs.Change.Lag
import Bourse.Proofs.Tables.Comparison

/-!
# Sums of industries

An aggregate has one sum for each date, entity and report line that occur (`nodup_sums`). For
industries these sums are told from the tables alone: an industry and a report line are a part, the
part has a row at a date when a fact of an admitted ticker says so, and then it has a sum there
(`Tables.sumAt?`, `Tables.mem_sums_industry`).
-/

namespace Bourse

open Std (TransCmp LawfulEqCmp)

/-- The date, entity and report line of a sum. -/
def Sum.key (s : Sum) : String × String × Option String :=
  (s.date, s.entity, s.line)

namespace Tables

instance : TransCmp compareKeys := by
  have h : compareKeys = compareLex (compareOn (·.1))
      (compareLex (compareOn (·.2.1)) (compareOn (·.2.2))) := by
    funext a b
    rw [compareKeys, compareReports_eq]
    rfl
  rw [h]
  infer_instance

instance : LawfulEqCmp compareKeys where
  eq_of_compare h := by
    obtain ⟨hdate, hpart⟩ := Ordering.then_eq_eq.1 h
    exact Prod.ext (LawfulEqCmp.eq_of_compare hdate)
      (LawfulEqCmp.eq_of_compare (show SeriesPoint.comparePart _ _ = .eq from hpart))

theorem compareKeys_lt_iff (a b : String × String × Option String) :
    compareKeys a b = .lt ↔ a.1 < b.1 ∨ a.1 = b.1 ∧ PartBefore a.2 b.2 := by
  show (compare a.1 b.1).then (SeriesPoint.comparePart a.2 b.2) = .lt ↔ _
  rw [Ordering.then_eq_lt, compare_lt_iff, SeriesPoint.comparePart_lt_iff,
    LawfulEqCmp.compare_eq_iff_eq]

variable (t : Tables) (a : Aggregate)

theorem nodup_sums : ((t.sums a).map Sum.key).Nodup := by
  have hkeys : ∀ l : List (String × String × Option String),
      (l.map fun key => Sum.key ⟨key.1, key.2.1, key.2.2, total
        (((t.joined a).filter fun r => (r.date, r.entity, r.line) = key).map (·.value))⟩) = l :=
    fun l => List.map_id l
  rw [sums, List.map_map, Function.comp_def, hkeys]
  exact nodup_eraseReps_mergeSort _

theorem mem_sums_iff {s : Sum} : s ∈ t.sums a ↔
    (∃ r ∈ t.joined a, r.key = s.key) ∧
      s.value = total (((t.joined a).filter fun r => r.key = s.key).map (·.value)) := by
  simp only [sums, List.mem_map, mem_eraseReps, List.mem_mergeSort]
  constructor
  · rintro ⟨key, hkey, rfl⟩
    exact ⟨hkey, rfl⟩
  · rintro ⟨hkey, hvalue⟩
    refine ⟨s.key, hkey, ?_⟩
    cases s
    exact congrArg _ hvalue.symm

/-- A ticker with the code belongs to the industry. -/
def InIndustry (industry code : String) : Prop :=
  ∃ ticker ∈ t.tickers, ticker.code = code ∧ ticker.industry = industry

variable (measure : Measure) (f : Filter)

instance (code : String) : Decidable (t.Admits f code) :=
  decidable_of_iff _ (t.isSome_admitted? f code)

instance (industry code : String) : Decidable (t.InIndustry industry code) :=
  inferInstanceAs (Decidable (∃ ticker ∈ t.tickers, _))

/-- The values at a date of the facts of one industry and report line, among the tickers that the
filter admits. -/
def partValues (date : String) (part : String × Option String) : List (Option Float) :=
  ((t.facts measure).filter fun fact => fact.date = date ∧ fact.line = part.2 ∧
    t.Admits f fact.code ∧ t.InIndustry part.1 fact.code).map (·.value)

/-- The sum of a part at a date, none when the part has no row there. Of rows without a number the
sum is missing. -/
def sumAt? (date : String) (part : String × Option String) : Option (Option Float) :=
  if t.partValues measure f date part = [] then none
  else some (total (t.partValues measure f date part))

variable {t measure f} (hcodes : (t.tickers.map (·.code)).Nodup) {dates : List String}
  {date : String} {part : String × Option String}

include hcodes

theorem industry_admitted? (code industry : String) :
    (t.admitted? f code).map (·.industry) = some industry ↔
      t.Admits f code ∧ t.InIndustry industry code := by
  rw [← isSome_admitted?]
  cases hticker : t.admitted? f code with
  | none => simp
  | some ticker =>
    have hfound := List.find?_some hticker
    rw [Bool.and_eq_true, beq_iff_eq] at hfound
    have hmem := List.mem_of_find?_eq_some hticker
    rw [Option.map_some, Option.some.injEq]
    constructor
    · rintro rfl
      exact ⟨rfl, ticker, hmem, hfound.1, rfl⟩
    · rintro ⟨-, other, hother, hcode, rfl⟩
      rw [List.inj_on_of_nodup_map hcodes hmem hother (hfound.1.trans hcode.symm)]

/-- Of the joined facts those of a part at a date hold its values there. -/
theorem values_joined (hdate : date ∈ dates) :
    ((t.joined ⟨measure, .industry, f, dates⟩).filter fun s => s.key = (date, part)).map (·.value)
      = t.partValues measure f date part := by
  rw [joined, partValues, List.filterMap_filter, List.filter_filterMap, List.map_filterMap,
    ← List.filterMap_eq_map, List.filterMap_filter]
  refine List.filterMap_congr fun fact _ => ?_
  have hadmitted := industry_admitted? (f := f) hcodes fact.code part.1
  cases hticker : t.admitted? f fact.code with
  | none =>
    rw [hticker] at hadmitted
    have hnot : ¬(t.Admits f fact.code ∧ t.InIndustry part.1 fact.code) := fun h => by
      simpa using hadmitted.2 h
    simp [hnot]
  | some ticker =>
    rw [hticker, Option.map_some, Option.some.injEq] at hadmitted
    by_cases hfact : fact.date = date
    · simp [hfact, hdate, Sum.key, entityOf, ← hadmitted, Option.filter_some, Prod.ext_iff,
        and_comm]
    · by_cases hmem : fact.date ∈ dates <;>
        simp [hfact, hmem, Sum.key, Option.filter_some]

omit hcodes in
theorem exists_fact_of_joined {a : Aggregate} {s : Sum} (h : s ∈ t.joined a) :
    s.date ∈ a.dates ∧ ∃ fact ∈ t.facts a.measure, fact.line = s.line := by
  obtain ⟨fact, hfact, hs⟩ := List.mem_filterMap.1 h
  obtain ⟨ticker, -, rfl⟩ := Option.map_eq_some_iff.1 hs
  obtain ⟨hmem, hdate⟩ := List.mem_filter.1 hfact
  exact ⟨by simpa using hdate, fact, hmem, rfl⟩

omit hcodes in
theorem date_mem_of_mem_sums {a : Aggregate} {s : Sum} (h : s ∈ t.sums a) : s.date ∈ a.dates := by
  obtain ⟨⟨r, hr, hkey⟩, -⟩ := (mem_sums_iff _ _).1 h
  rw [← show r.date = s.date from congrArg Prod.fst hkey]
  exact (exists_fact_of_joined hr).1

/-- The sums of industries are those of the parts that have a row at a date. -/
theorem mem_sums_industry {s : Sum} : s ∈ t.sums ⟨measure, .industry, f, dates⟩ ↔
    s.date ∈ dates ∧ t.sumAt? measure f s.date (s.entity, s.line) = some s.value := by
  by_cases hdate : s.date ∈ dates
  · rw [mem_sums_iff]
    have hvalues : ((t.joined ⟨measure, .industry, f, dates⟩).filter fun r =>
        r.key = s.key).map (·.value) = t.partValues measure f s.date (s.entity, s.line) :=
      values_joined hcodes hdate
    have hrow : (∃ r ∈ t.joined ⟨measure, .industry, f, dates⟩, r.key = s.key) ↔
        t.partValues measure f s.date (s.entity, s.line) ≠ [] := by
      rw [← hvalues, Ne, List.map_eq_nil_iff, List.filter_eq_nil_iff]
      simp [Sum.key]
    rw [hrow, hvalues, sumAt?]
    by_cases hnil : t.partValues measure f s.date (s.entity, s.line) = []
    · simp [hnil]
    · simp [hnil, hdate, eq_comm]
  · exact iff_of_false (fun hs => hdate (date_mem_of_mem_sums hs)) fun h => hdate h.1

end Tables

end Bourse
