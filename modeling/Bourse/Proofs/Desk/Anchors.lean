import Bourse.Desk.Plan
import Bourse.Proofs.Desk.Sessions

/-!
# Anchors of the rankings

The dates that the rankings of price and of traded value compare when nothing is cached. Price goes
by the named sessions (`plain_plan_priceChange`). Traded value goes by the sessions nearest to
today, to the ends of two quarters and to the day four years before (`plain_plan_liquidityChange`).
-/

namespace Bourse

section Named

variable {S : Finset Date} {today : Date} {s : SessionDates}

theorem SessionDates.Of.unique (h : s.Of S today) {s' : SessionDates} (h' : s'.Of S today) :
    s = s' := by
  have hfive := eq_of_card_filter h.lastFive h'.lastFive
  have hlatest := h.latest.unique h'.latest
  have hquarter := h.lastQuarter.unique h'.lastQuarter
  have hfirst := h.firstYear.unique h'.firstYear
  have hlast := h.lastYear.unique h'.lastYear
  cases s
  cases s'
  simp_all only

theorem SessionDates.Of.missingAnchor?_eq_none (h : s.Of S today) :
    missingAnchor? S today = none := by
  rw [missingAnchor?_eq_none_iff]
  refine ⟨?_, ⟨_, h.lastQuarter.1⟩, ⟨_, h.firstYear.1⟩⟩
  obtain ⟨hlt, -⟩ := List.getElem?_eq_some_iff.1 (getElem?_descending_iff.2 h.lastFive)
  rwa [length_descending] at hlt

/-- The rows of a table give its named sessions when it has them all. -/
theorem ofRows_eq_ok {t : Tables} {table : SessionTable} (h : t.Dated table S)
    (htoday : 1 ≤ today.year ∧ today.year ≤ 9999) (hs : s.Of S today) :
    SessionDates.ofRows table (t.anchorRows table (sessionTargets today)) = .ok s := by
  obtain ⟨s', hs', heq⟩ := (sessionDates_outcome h htoday).1 hs.missingAnchor?_eq_none
  rw [heq, hs.unique hs']

end Named

/-- The sessions that traded value is compared at. -/
structure QuarterSessions where
  latest : Date
  quarter : Date
  year : Date
  fourYears : Date

/-- The quarter anchors of a table with the dates of `S`, on the day `today`. -/
structure QuarterSessions.Of (S : Finset Date) (today : Date) (s : QuarterSessions) : Prop where
  latest : IsGreatest {d | d ∈ S ∧ d ≤ today} s.latest
  quarter : IsGreatest {d | d ∈ S ∧ today.QuartersBefore 1 d} s.quarter
  year : IsGreatest {d | d ∈ S ∧ today.QuartersBefore 4 d} s.year
  fourYears : IsGreatest {d | d ∈ S ∧ today.YearsBefore 4 d} s.fourYears

section Plans

open Analysis

variable (desk : Desk) {t : Tables} {S : Finset Date}

theorem plain_sessionDates {table : SessionTable} (h : t.Dated table S)
    (htoday : 1 ≤ desk.today.year ∧ desk.today.year ≤ 9999) {s : SessionDates}
    (hs : s.Of S desk.today) : plain t (desk.sessionDates table) = .ok s := by
  rw [Desk.sessionDates, plain_getOrComputeFor, plain_bind]
  exact ofRows_eq_ok h htoday hs

theorem plain_nearestSession {table : SessionTable} (h : t.Dated table S) {target d : Date}
    (htarget : 0 ≤ target.year ∧ target.year ≤ 9999)
    (hd : IsGreatest {e | e ∈ S ∧ e ≤ target} d) :
    plain t (desk.nearestSession table target) = .ok d := by
  have hfind : (descending S).find? (fun e => e ≤ target) = some d := find?_descending_iff.2 hd
  have hrow : (Row.mk [("session_date", .text d.iso)]).date? "session_date"
      = Date.readStart d.iso := rfl
  rw [Desk.nearestSession, Gateway.getOrCompute, plain_getOrComputeFor, plain_bind]
  change nearestOfRows table target (t.nearestRows table target) = .ok d
  rw [Tables.nearestRows, h.lastOnOrBefore_eq htarget, hfind, nearestOfRows]
  simp only [Option.map_some, Option.toList_some, List.head?_cons, Option.bind_some, hrow,
    Date.readStart_iso d (h.year_mem d hd.1.1)]

theorem plain_nearestSession_none {table : SessionTable} (h : t.Dated table S) {target : Date}
    (htarget : 0 ≤ target.year ∧ target.year ≤ 9999) (hnone : ¬∃ e ∈ S, e ≤ target) :
    plain t (desk.nearestSession table target)
      = .error (.unresolved (.noSession target table.name)) := by
  rw [Desk.nearestSession, Gateway.getOrCompute, plain_getOrComputeFor, plain_bind]
  change nearestOfRows table target (t.nearestRows table target) = _
  rw [Tables.nearestRows, h.lastOnOrBefore_eq htarget, (find?_descending_eq_none hnone).1]
  rfl

theorem plain_plan_priceChange (h : t.Dated .trades S)
    (htoday : 1 ≤ desk.today.year ∧ desk.today.year ≤ 9999) {s : SessionDates}
    (hs : s.Of S desk.today) :
    plain t (desk.plan .priceChange none) = .ok (.compare [s.latest.iso]
      ([s.lastFive, s.lastQuarter, s.firstYear, s.lastYear].map Date.iso) true) := by
  change plain t (desk.sessionDates .trades >>= _) = _
  rw [plain_bind, plain_sessionDates desk h htoday hs]
  rfl

theorem plain_plan_liquidityChange (h : t.Dated .trades S)
    (htoday : 10 ≤ desk.today.year ∧ desk.today.year ≤ 9999) {s : QuarterSessions}
    (hs : s.Of S desk.today) :
    plain t (desk.plan .liquidityChange none) = .ok (.compare [s.latest.iso]
      ([s.quarter, s.year, s.fourYears].map Date.iso) false) := by
  have hfourYears : 4 ≤ desk.today.year ∧ desk.today.year ≤ 9999 := ⟨by omega, htoday.2⟩
  obtain ⟨back, hback, hyear, hle⟩ := fourYearsBack_eq hfourYears
  have hlatest := plain_nearestSession desk h (by omega) hs.latest
  have hone : ((1 : UInt32).toNat : ℤ) ≤ 4 * desk.today.year := by
    rw [UInt32.toNat_one]
    omega
  have hfour : ((4 : UInt32).toNat : ℤ) ≤ 4 * desk.today.year := by
    change (4 : ℤ) ≤ _
    omega
  have hquarter := plain_nearestSession desk h
    (quarterTarget_year (by decide) hone htoday.2) (d := s.quarter) <| by
      simp only [le_quarterTarget_iff (by decide) hone]
      exact hs.quarter
  have hyear' := plain_nearestSession desk h
    (quarterTarget_year (by decide) hfour htoday.2) (d := s.year) <| by
      simp only [le_quarterTarget_iff (by decide) hfour]
      exact hs.year
  have hback' := plain_nearestSession desk h hyear (d := s.fourYears) <| by
    simpa only [hle] using hs.fourYears
  change plain t ((liquidityAnchors desk.today).mapM (desk.nearestSession .trades) >>= _) = _
  rw [liquidityAnchors, hback, Option.getD_some]
  simp only [List.mapM_cons, List.mapM_nil, plain_bind, hlatest, hquarter, hyear', hback']
  rfl

end Plans

end Bourse
