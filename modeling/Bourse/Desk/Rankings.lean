import Bourse.Change.Pivot
import Bourse.Desk.Plan

/-!
# Rankings of tickers

Tickers ranked by a change: of price against the named sessions, of traded value against the quarter
anchors, of equity and debt lines between two quarters, and of price over five sessions. Each
ranking keeps the first fifty at most.
-/

namespace Bourse.Desk

/-- One row per ticker, with a slot for each report line, or for each prior date without lines. -/
def pivoted (desk : Desk) (metric : Metric) (filter : Filter) (lines : Option (List String)) :
    Analysis (List PivotRow) := do
  let plan ← desk.plan metric none
  let records ← execute metric filter plan
  let slots := match lines with
    | some lines => PivotSlots.byLine lines
    | none => PivotSlots.byDate plan.prior
  return pivot slots records

def priceChange (desk : Desk) (filter : Filter) : Analysis (List PricePerformance) :=
  desk.gateway.getOrCompute (Topic.ranking .priceChange filter).key.text do
    let rows ← desk.pivoted .priceChange filter none
    return rankTop topCount (·.perFive) (·.code) (rows.map fun r =>
      (⟨r.entity, r.slot 0, r.slot 1, r.slot 2, r.slot 3⟩ : PricePerformance))

def liquidityChange (desk : Desk) (filter : Filter) : Analysis (List LiquidityPerformance) :=
  desk.gateway.getOrCompute (Topic.ranking .liquidityChange filter).key.text do
    let rows ← desk.pivoted .liquidityChange filter none
    return rankTop topCount (·.perQuarter) (·.code) (rows.map fun r =>
      (⟨r.entity, r.slot 0, r.slot 1, r.slot 2⟩ : LiquidityPerformance))

def equityChange (desk : Desk) (filter : Filter) : Analysis (List EquityPerformance) :=
  desk.gateway.getOrCompute (Topic.ranking .equityChange filter).key.text do
    let rows ← desk.pivoted .equityChange filter (some Metric.equityLines)
    return rankTop topCount (·.ownerEquity) (·.code) (rows.map fun r =>
      (⟨r.entity, r.slot 0, r.slot 1, r.slot 2, r.slot 3⟩ : EquityPerformance))

def liabilitiesChange (desk : Desk) (filter : Filter) : Analysis (List LiabilitiesPerformance) :=
  desk.gateway.getOrCompute (Topic.ranking .liabilitiesChange filter).key.text do
    let rows ← desk.pivoted .liabilitiesChange filter (some Metric.debtLines)
    return rankTop topCount (·.shortTermDebt) (·.code) (rows.map fun r =>
      (⟨r.entity, r.slot 0, r.slot 1⟩ : LiabilitiesPerformance))

/-- A limit within `1 … topCount`. -/
def clampLimit (limit : Nat) : Nat :=
  max 1 (min limit topCount)

def TopMover.ofChange (r : ChangeRecord) : TopMover :=
  ⟨r.entity, r.currentValue, r.percentChange⟩

/-- The tickers with the greatest change of price over five sessions. -/
def topMovers (desk : Desk) (filter : Filter) (limit : Nat) : Analysis (List TopMover) :=
  let limit := clampLimit limit
  desk.gateway.getOrCompute (Topic.topMovers filter limit).key.text do
    let s ← desk.recentSessions .trades
    let rows ← Analysis.ask (.comparison
      ⟨Metric.priceChange.measure, Metric.priceChange.entity, filter, [s.latest.iso]⟩
      [s.lastFive.iso] true)
    let movers := (rows.filterMap ChangeRecord.ofRow?).map TopMover.ofChange
    return rankTop limit (·.roc5) (·.code) movers

end Bourse.Desk
