import Bourse.Proofs.Desk.Samples
import Bourse.Proofs.Tables.Comparison
import Bourse.Proofs.Tables.Sums

/-!
# Dates as texts

Sessions are kept, bound and compared as texts, and records are sorted by the texts of their dates.
For years of four digits this is the order of the dates themselves, in the tables
(`Tables.Dated.lastOnOrBefore_iff`, `Tables.Dated.firstOnOrAfter_iff`, `Tables.comparable_iso_iff`),
for the start of a series (`leastText_iso_iff`) and for its records (`pairwise_sortByTime_iso`), and
a date is read back from its text whatever time of day follows it (`Row.date?_of_text`).
-/

namespace Bourse

open Std (TransCmp)

/-- The year is written with four digits and no sign. -/
def Date.FourDigits (d : Date) : Prop :=
  0 ≤ d.year ∧ d.year ≤ 9999

theorem Row.date?_of_text {r : Row} {column : String} {d : Date} (h : d.FourDigits)
    (suffix : String) (hr : r.get? column = some (.text (d.iso ++ suffix))) :
    r.date? column = some d := by
  rw [Row.date?, hr, Option.bind_some, Cell.toDate?, Date.readStart_append h]

theorem Row.date?_of_date {r : Row} {column : String} {d : Date}
    (hr : r.get? column = some (.date d)) : r.date? column = some d := by
  rw [Row.date?, hr, Option.bind_some, Cell.toDate?]

namespace Tables

namespace Dated

variable {t : Tables} {table : SessionTable} {S : Finset Date} (h : t.Dated table S)
  {target : Date} (htarget : target.FourDigits) {text : String}

include h htarget

theorem lastOnOrBefore_iff : t.lastOnOrBefore table target.iso = some text ↔
    ∃ d, IsGreatest {d | d ∈ S ∧ d ≤ target} d ∧ d.iso = text := by
  simp only [h.lastOnOrBefore_eq htarget, Option.map_eq_some_iff, find?_descending_iff]

theorem firstOnOrAfter_iff : t.firstOnOrAfter table target.iso = some text ↔
    ∃ d, IsLeast {d | d ∈ S ∧ target ≤ d} d ∧ d.iso = text := by
  simp only [h.firstOnOrAfter_eq htarget, Option.map_eq_some_iff, findRev?_descending_iff]

end Dated

theorem comparable_iso_iff {current prior : Sum} {d e : Date} (hd : d.FourDigits)
    (he : e.FourDigits) (hcurrent : current.date = d.iso) (hprior : prior.date = e.iso)
    (strict : Bool) : comparable strict current prior = true ↔
      (if strict then e < d else e ≤ d) ∧
        current.entity = prior.entity ∧ current.line = prior.line := by
  rw [comparable_iff, hcurrent, hprior, Date.iso_lt_iso_iff he hd, Date.iso_le_iso_iff he hd]

end Tables

theorem leastText_iso_iff {dates : List Date} (hdates : ∀ d ∈ dates, d.FourDigits) {text : String} :
    leastText (dates.map Date.iso) = some text ↔
      ∃ d, IsLeast {d | d ∈ dates} d ∧ d.iso = text := by
  have hleast : ∀ d ∈ dates, (∀ s ∈ dates.map Date.iso, d.iso ≤ s) ↔ ∀ e ∈ dates, d ≤ e := by
    intro d hd
    rw [List.forall_mem_map]
    exact forall₂_congr fun e he => Date.iso_le_iso_iff (hdates d hd) (hdates e he)
  rw [leastText_eq, List.min?_eq_some_iff, List.mem_map]
  constructor
  · rintro ⟨⟨d, hd, rfl⟩, hmin⟩
    exact ⟨d, ⟨hd, (hleast d hd).1 hmin⟩, rfl⟩
  · rintro ⟨d, ⟨hd, hmin⟩, rfl⟩
    exact ⟨⟨d, hd, rfl⟩, (hleast d hd).2 hmin⟩

theorem pairwise_sortByTime_date (records : List ChangeRecord) :
    (ChangeRecord.sortByTime records).Pairwise (·.date ≤ ·.date) := by
  have hsorted : (ChangeRecord.sortByTime records).Pairwise fun r s =>
      (Tables.compareKeys r.key s.key).isLE :=
    List.pairwise_mergeSort (fun _ _ _ => TransCmp.isLE_trans)
      (fun r s => isLE_total r.key s.key) records
  exact hsorted.imp fun hle => (isLE_compare_iff _ _).1 (Ordering.isLE_left_of_isLE_then hle)

theorem pairwise_sortByTime_iso (records : List ChangeRecord) :
    (ChangeRecord.sortByTime records).Pairwise fun r s => ∀ d e : Date, d.FourDigits →
      e.FourDigits → ∀ x y : String, r.date = d.iso ++ x → s.date = e.iso ++ y → d ≤ e := by
  refine (pairwise_sortByTime_date records).imp fun hle d e hd he x y hr hs => ?_
  rw [hr, hs] at hle
  by_contra hlt
  exact hle.not_gt ((Date.iso_append_lt_iff he hd y x).2 (.inl (not_le.1 hlt)))

/-- Texts of dates are in the order of the dates and are read back as these, so tables, starts of
series and sorted records are in the order of time. -/
theorem Date.iso_chronological :
    (∀ d e : Date, d.FourDigits → e.FourDigits → (d.iso < e.iso ↔ d < e)) ∧
    (∀ d : Date, d.FourDigits → ∀ (suffix : String) (r : Row) (column : String),
      r.get? column = some (.text (d.iso ++ suffix)) ∨ r.get? column = some (.date d) →
        r.date? column = some d) ∧
    (∀ (t : Tables) (table : SessionTable) (S : Finset Date), t.Dated table S →
      t.latestFirst table = (descending S).map Date.iso ∧
      ∀ target : Date, target.FourDigits → ∀ text : String,
        (t.lastOnOrBefore table target.iso = some text ↔
          ∃ d, IsGreatest {d | d ∈ S ∧ d ≤ target} d ∧ d.iso = text) ∧
        (t.firstOnOrAfter table target.iso = some text ↔
          ∃ d, IsLeast {d | d ∈ S ∧ target ≤ d} d ∧ d.iso = text)) ∧
    (∀ (current prior : Sum) (d e : Date), d.FourDigits → e.FourDigits →
      current.date = d.iso → prior.date = e.iso → ∀ strict,
        (Tables.comparable strict current prior = true ↔ (if strict then e < d else e ≤ d) ∧
          current.entity = prior.entity ∧ current.line = prior.line)) ∧
    (∀ dates : List Date, (∀ d ∈ dates, d.FourDigits) → ∀ text,
      (leastText (dates.map Date.iso) = some text ↔
        ∃ d, IsLeast {d | d ∈ dates} d ∧ d.iso = text)) ∧
    ∀ records : List ChangeRecord, (ChangeRecord.sortByTime records).Pairwise fun r s =>
      ∀ d e : Date, d.FourDigits → e.FourDigits →
        ∀ x y : String, r.date = d.iso ++ x → s.date = e.iso ++ y → d ≤ e := by
  refine ⟨fun d e hd he => iso_lt_iso_iff hd he, ?_, ?_, ?_, ?_, pairwise_sortByTime_iso⟩
  · rintro d hd suffix r column (htext | hdate)
    · exact Row.date?_of_text hd suffix htext
    · exact Row.date?_of_date hdate
  · intro t table S h
    exact ⟨h.latestFirst_eq, fun target htarget text =>
      ⟨h.lastOnOrBefore_iff htarget, h.firstOnOrAfter_iff htarget⟩⟩
  · intro current prior d e hd he hcurrent hprior strict
    exact Tables.comparable_iso_iff hd he hcurrent hprior strict
  · exact fun dates hdates text => leastText_iso_iff hdates

/-- A leap day, with a time of day after it in a row. -/
theorem Date.iso_chronological_leap :
    let d : Date := ⟨2024, 2, 29, by decide, by decide, by decide, by decide⟩
    let e : Date := ⟨2024, 3, 1, by decide, by decide, by decide, by decide⟩
    (d.FourDigits ∧ e.FourDigits) ∧ d.iso < e.iso ∧
      (Row.empty.insert "d" (.text (d.iso ++ " 00:00:00"))).date? "d" = some d ∧
      leastText [e.iso, d.iso] = some d.iso := by
  intro d e
  have hd : d.FourDigits := ⟨by decide, by decide⟩
  have he : e.FourDigits := ⟨by decide, by decide⟩
  have hde : d < e := by decide
  obtain ⟨horder, hcell, -, -, hleast, -⟩ := iso_chronological
  refine ⟨⟨hd, he⟩, (horder d e hd he).2 hde, ?_, ?_⟩
  · refine hcell d hd " 00:00:00" _ "d" (.inl ?_)
    rw [Row.get?_insert, if_pos rfl]
  · refine (hleast [e, d] (by simp [hd, he]) d.iso).2 ⟨d, ⟨by simp, fun x hx => ?_⟩, rfl⟩
    rcases List.mem_pair.1 hx with rfl | rfl
    · exact hde.le
    · exact le_rfl

end Bourse
