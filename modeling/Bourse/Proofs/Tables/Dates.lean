import Mathlib.Data.List.Find
import Bourse.Proofs.Date.Order
import Bourse.Proofs.List.Descending
import Bourse.Tables

/-!
# The dates of a table

All that the sessions of a table depend on is the set of its dates (`Tables.Dated`). The session
texts are these dates from the latest to the first (`latestFirst_eq`), so the last one up to a day
and the first one from a day on are looked for among the dates themselves.
-/

namespace Bourse

/-- The session texts of a table are the dates of the set, with years of four digits. -/
structure Tables.Dated (t : Tables) (table : SessionTable) (S : Finset Date) : Prop where
  text_mem : ∀ text, text ∈ t.sessionDates table ↔ ∃ d ∈ S, d.iso = text
  year_mem : ∀ d ∈ S, 0 ≤ d.year ∧ d.year ≤ 9999

namespace Tables.Dated

variable {t : Tables} {table : SessionTable} {S : Finset Date} (h : t.Dated table S)

include h

theorem latestFirst_eq : t.latestFirst table = (descending S).map Date.iso := by
  refine eraseReps_mergeSort_descending ?_ fun text => ?_
  · rw [List.pairwise_map]
    refine (pairwise_descending S).imp_of_mem fun {a b} ha hb hab => ?_
    exact (Date.iso_lt_iso_iff (h.year_mem b (mem_descending.1 hb))
      (h.year_mem a (mem_descending.1 ha))).2 hab
  · simp only [h.text_mem, List.mem_map, mem_descending]

theorem lastOnOrBefore_eq {target : Date} (ht : 0 ≤ target.year ∧ target.year ≤ 9999) :
    t.lastOnOrBefore table target.iso
      = ((descending S).find? fun d => d ≤ target).map Date.iso := by
  rw [lastOnOrBefore, h.latestFirst_eq, List.find?_map]
  refine congrArg _ (List.find?_congr fun d hd => ?_)
  exact decide_eq_decide.2 (Date.iso_le_iso_iff (h.year_mem d (mem_descending.1 hd)) ht)

theorem firstOnOrAfter_eq {target : Date} (ht : 0 ≤ target.year ∧ target.year ≤ 9999) :
    t.firstOnOrAfter table target.iso
      = ((descending S).findRev? fun d => target ≤ d).map Date.iso := by
  simp only [firstOnOrAfter, h.latestFirst_eq, List.findRev?_eq_find?_reverse, ← List.map_reverse,
    List.find?_map]
  refine congrArg _ (List.find?_congr fun d hd => ?_)
  rw [List.mem_reverse, mem_descending] at hd
  exact decide_eq_decide.2 (Date.iso_le_iso_iff ht (h.year_mem d hd))

end Tables.Dated

theorem Tables.dated_toFinset {t : Tables} {table : SessionTable} {dates : List Date}
    (h : t.sessionDates table = dates.map Date.iso)
    (hyear : ∀ d ∈ dates, 0 ≤ d.year ∧ d.year ≤ 9999) : t.Dated table dates.toFinset where
  text_mem text := by
    rw [h, List.mem_map]
    simp only [List.mem_toFinset]
  year_mem d hd := hyear d (List.mem_toFinset.1 hd)

end Bourse
