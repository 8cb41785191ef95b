import Bourse.Proofs.Desk.Rankings
import Bourse.Proofs.Desk.RowOrder
import Bourse.Proofs.Desk.Samples
import Bourse.Proofs.Tables.Reports

/-!
# Rankings of report lines

The labels of the quarters before a day (`QuarterBefore`), and which tickers a ranking of report
lines is made of (`LineRanking`). The rankings of equity and of debt are the first fifty rows of
such rankings, between the last two completed quarters (`rankings_reported`).
-/

namespace Bourse

/-- The label is that of the quarter `k` quarters before the one that holds the day. -/
def QuarterBefore (day : Date) (k : ℕ) (label : String) : Prop :=
  ∃ (year : ℤ) (quarter : ℕ), (1 ≤ quarter ∧ quarter ≤ 4) ∧
    year * 4 + quarter + k = day.year * 4 + ((day.month + 2) / 3 : ℕ) ∧
    label = quarterLabel year quarter

theorem quarterBefore_reportLabel (day : Date) (k : ℕ) :
    QuarterBefore day k (reportLabel day .quarter k) := by
  have hmonth := Date.month_bounds day
  have hindex : Period.quarterIndex day = day.year * 4 + ((day.month - 1) / 3 : ℕ) := rfl
  exact ⟨(Period.quarterIndex day - k) / 4, ((Period.quarterIndex day - k) % 4).toNat + 1,
    by omega, by omega, rfl⟩

/-- The labels of earlier quarters come first, as long as years have four digits. -/
theorem QuarterBefore.lt {day : Date} {i j : ℕ} {earlier later : String} (hij : i < j)
    (hj : 4000 + j ≤ day.year * 4) (hday : day.year ≤ 9999) (hearlier : QuarterBefore day j earlier)
    (hlater : QuarterBefore day i later) : earlier < later := by
  have hmonth := Date.month_bounds day
  obtain ⟨year, quarter, hquarter, hsum, rfl⟩ := hearlier
  obtain ⟨year', quarter', hquarter', hsum', rfl⟩ := hlater
  exact quarterLabel_lt (by omega) (by omega) hquarter hquarter' (by omega)

namespace Tables

variable (t : Tables)

/-- The changes of a ticker's equity lines between two periods. -/
def equityPerformance (earlier later code : String) : EquityPerformance :=
  let change := t.lineChange earlier later code
  ⟨code, change "Owner's equity", change "Share premium", change "Non-controlling interests",
    change "Undistributed earnings"⟩

/-- The changes of a ticker's debt lines between two periods. -/
def liabilitiesPerformance (earlier later code : String) : LiabilitiesPerformance :=
  let change := t.lineChange earlier later code
  ⟨code, change "Short-term debt", change "Long-term debt"⟩

end Tables

/-- The rows of a ranking: one for each ticker that the filter admits and that has rows of one of
the lines in both periods, and each one ranked before the next. -/
structure LineRanking (t : Tables) (f : Filter) (lines : List String) (earlier later : String)
    {α : Type} (row : String → α) (value : α → Option Float) (code : α → String)
    (ranking : List α) : Prop where
  ordered : ranking.Pairwise (RankedBefore value code)
  mem_iff : ∀ r, r ∈ ranking ↔ ∃ ticker, t.Admits f ticker ∧
    (∃ line ∈ lines, t.Reports earlier ticker line ∧ t.Reports later ticker line) ∧ r = row ticker

namespace Desk

open Analysis

variable (desk : Desk) {t : Tables} (f : Filter)

/-- Over an empty cache a ranking of report lines ranks the changes between the last two completed
quarters. -/
theorem run_lineRanking (metric : Metric) {lines : List String}
    (hstrategy : metric.strategy = .latestQuarters) (hmeasure : metric.measure = .report lines)
    (hentity : metric.entity = .ticker) (hlines : ApartByCase lines)
    (htoday : 1001 ≤ desk.today.year ∧ desk.today.year ≤ 9999) {α : Type} [Payload α]
    (row : PivotRow → α) (value : α → Option Float) (code : α → String)
    (hcode : ∀ r, code (row r) = r.entity) (key : String) (delay : Backend → ℕ)
    (purgeEvery now : ℕ) :
    let earlier := reportLabel desk.today .quarter 2
    let later := reportLabel desk.today .quarter 1
    ∃ ranking, ((desk.gateway.getOrCompute key (do
          let rows ← desk.pivoted metric f (some lines)
          return rankTop topCount value code (rows.map row))).run.run (Backend.timed delay)
            (emptyBackend t purgeEvery now)).1 = .ok (ranking.take 50) ∧
      LineRanking t f lines earlier later
        (fun ticker => row ⟨ticker, lines.map (t.lineChange earlier later ticker)⟩)
        value code ranking := by
  intro earlier later
  have hle : earlier ≤ later := le_of_lt <|
    QuarterBefore.lt (by decide) (by omega) htoday.2 (quarterBefore_reportLabel desk.today 2)
      (quarterBefore_reportLabel desk.today 1)
  have hplan : plain t (desk.plan metric none) = .ok (.compare [later] [earlier] false) := by
    unfold Desk.plan
    rw [hstrategy]
    rfl
  have hrecords := metric.sorted_perm
    (t.comparedRecords ⟨.report lines, .ticker, f, [later]⟩ [earlier] false)
  have hrows : plain t (desk.pivoted metric f (some lines))
      = .ok (pivot (.byLine lines) (metric.sorted
          (t.comparedRecords ⟨.report lines, .ticker, f, [later]⟩ [earlier] false))) := by
    rw [pivoted_eq, plain_bind, hplan, ← hmeasure, ← hentity]
    change plain t (_ <$> execute metric f _) = _
    rw [execute_eq, plain_map, plain_map]
    rfl
  obtain ⟨ranking, htop, hordered, hmem⟩ := rankTop_pivot
    (fun _ => Tables.mem_entities_lines hlines hle hrecords) (fun _ hthere =>
      List.map_congr_left fun _ hlabel =>
        Tables.slotValue_lines hlines hle hthere.1 hlabel hrecords) row value code hcode
  refine ⟨ranking, ?_, hordered, fun r => ?_⟩
  · rw [← htop]
    exact run_ranked desk f hrows key (fun rows => rankTop topCount value code (rows.map row))
      delay purgeEvery now
  · simp only [hmem, and_assoc, PivotSlots.labels]

theorem apartByCase_equityLines : ApartByCase Metric.equityLines := by
  constructor <;> decide

theorem apartByCase_debtLines : ApartByCase Metric.debtLines := by
  constructor <;> decide

/-- The rankings of equity and of debt are the first fifty rows of the changes of their report lines
between the last two completed quarters, one for each admitted ticker with rows of a line in
both. -/
theorem rankings_reported (t : Tables)
    (htoday : 1001 ≤ desk.today.year ∧ desk.today.year ≤ 9999) (delay : Backend → ℕ)
    (purgeEvery now : ℕ) :
    ∃ earlier later, QuarterBefore desk.today 2 earlier ∧ QuarterBefore desk.today 1 later ∧
      (∃ ranking, ((desk.equityChange f).run.run (Backend.timed delay)
          (emptyBackend t purgeEvery now)).1 = .ok (ranking.take 50) ∧
        LineRanking t f ["Owner's equity", "Share premium", "Non-controlling interests",
            "Undistributed earnings"] earlier later (t.equityPerformance earlier later)
          (·.ownerEquity) (·.code) ranking) ∧
      ∃ ranking, ((desk.liabilitiesChange f).run.run (Backend.timed delay)
          (emptyBackend t purgeEvery now)).1 = .ok (ranking.take 50) ∧
        LineRanking t f ["Short-term debt", "Long-term debt"] earlier later
          (t.liabilitiesPerformance earlier later) (·.shortTermDebt) (·.code) ranking := by
  refine ⟨_, _, quarterBefore_reportLabel desk.today 2, quarterBefore_reportLabel desk.today 1,
    ?_, ?_⟩
  · obtain ⟨ranking, hrun, hranking⟩ := run_lineRanking desk f (t := t) .equityChange
      rfl rfl rfl apartByCase_equityLines htoday
      (fun r => (⟨r.entity, r.slot 0, r.slot 1, r.slot 2, r.slot 3⟩ : EquityPerformance))
      (·.ownerEquity) (·.code) (fun _ => rfl) (Topic.ranking .equityChange f).key.text delay
      purgeEvery now
    exact ⟨ranking, hrun, hranking⟩
  · obtain ⟨ranking, hrun, hranking⟩ := run_lineRanking desk f (t := t)
      .liabilitiesChange rfl rfl rfl apartByCase_debtLines htoday
      (fun r => (⟨r.entity, r.slot 0, r.slot 1⟩ : LiabilitiesPerformance)) (·.shortTermDebt)
      (·.code) (fun _ => rfl) (Topic.ranking .liabilitiesChange f).key.text delay purgeEvery now
    exact ⟨ranking, hrun, hranking⟩

end Desk

/-- Reports of three tickers: one whose lines are spelled in several ways, one with another line and
one that reported in one quarter only. -/
def lineTables : Tables where
  tickers := [⟨"AAA", "HOSE", "STOCK", "Banks"⟩, ⟨"BBB", "HOSE", "ETF", "Banks"⟩,
    ⟨"CCC", "HOSE", "STOCK", "Banks"⟩]
  trades := []
  ratios := []
  reports := [⟨"AAA", "2023Q4", "OWNER'S EQUITY", some 8⟩,
    ⟨"AAA", "2024Q1", "Owner's equity", some 9⟩, ⟨"AAA", "2024Q1", "owner's Equity", some 3⟩,
    ⟨"AAA", "2023Q4", "Net revenue", some 7⟩, ⟨"AAA", "2024Q1", "Net revenue", some 14⟩,
    ⟨"AAA", "2024Q1", "Long-term debt", some 1⟩,
    ⟨"BBB", "2023Q4", "SHARE PREMIUM", some 5⟩, ⟨"BBB", "2024Q1", "share premium", none⟩,
    ⟨"BBB", "2023Q4", "short-term debt", some 4⟩, ⟨"BBB", "2024Q1", "Short-term Debt", some 3⟩,
    ⟨"CCC", "2024Q1", "Owner's equity", some 6⟩]

/-- A desk in the second quarter, so that the quarters before lie on both sides of a year's end. -/
def aprilDesk : Desk :=
  { anchorDesk with today := sampleDay 2024 4 10 }

theorem rankings_reported_sample :
    (1001 ≤ aprilDesk.today.year ∧ aprilDesk.today.year ≤ 9999) ∧
      ∃ earlier later, QuarterBefore aprilDesk.today 2 earlier ∧
        QuarterBefore aprilDesk.today 1 later ∧
        (∃ ranking, ((aprilDesk.equityChange banksOnHose).run.run (Backend.timed fun _ => 700)
            (Desk.emptyBackend lineTables 3 0)).1 = .ok (ranking.take 50) ∧
          LineRanking lineTables banksOnHose ["Owner's equity", "Share premium",
              "Non-controlling interests", "Undistributed earnings"] earlier later
            (lineTables.equityPerformance earlier later) (·.ownerEquity) (·.code) ranking) ∧
        ∃ ranking, ((aprilDesk.liabilitiesChange banksOnHose).run.run (Backend.timed fun _ => 700)
            (Desk.emptyBackend lineTables 3 0)).1 = .ok (ranking.take 50) ∧
          LineRanking lineTables banksOnHose ["Short-term debt", "Long-term debt"] earlier later
            (lineTables.liabilitiesPerformance earlier later) (·.shortTermDebt) (·.code)
            ranking := by
  have htoday : 1001 ≤ aprilDesk.today.year ∧ aprilDesk.today.year ≤ 9999 := by decide
  exact ⟨htoday, Desk.rankings_reported aprilDesk banksOnHose lineTables htoday (fun _ => 700) 3 0⟩

end Bourse
