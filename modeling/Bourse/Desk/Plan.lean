import Bourse.Change.Lag
import Bourse.Desk.Sessions

/-!
# Plans

The dates that a metric is evaluated at, and the change records that the evaluation gives. A plan
compares some current dates with some prior ones, or follows a series from each date to the next.
-/

namespace Bourse

inductive Plan where
  | compare (current prior : List String) (strict : Bool)
  | lag (dates : List String)
deriving DecidableEq

def Plan.prior : Plan → List String
  | compare _ prior _ => prior
  | lag _ => []

/-- The least of some texts. -/
def leastText : List String → Option String
  | [] => none
  | s :: rest => some (rest.foldl (fun a b => if b < a then b else a) s)

namespace Desk

def requireWindow (metric : Metric) (window : Option Window) : Except Fault Window :=
  match window with
  | some w => .ok w
  | none => .error (.invalid (.windowRequired metric.key))

/-- The sessions, newest first, or the report periods, oldest first, that a window covers. -/
def sampleDates (desk : Desk) (measure : Measure) (window : Window) : Analysis (List String) :=
  match measure.sessions with
  | some table => do
    let sessions ← desk.sampleSessions table (window.anchors desk.today)
    return sessions.map Date.iso
  | none => Analysis.ofExcept (reportPeriods desk.today window.unit (window.order + 1))

def plan (desk : Desk) (metric : Metric) (window : Option Window) : Analysis Plan :=
  match metric.strategy with
  | .sessionAnchors => do
    let s ← desk.sessionDates .trades
    return .compare [s.latest.iso]
      [s.lastFive.iso, s.lastQuarter.iso, s.firstYear.iso, s.lastYear.iso] true
  | .quarterAnchors => do
    let sessions ← (liquidityAnchors desk.today).mapM (desk.nearestSession .trades)
    let dates := sessions.map Date.iso
    return .compare (dates.take 1) (dates.drop 1) false
  | .offset => do
    let window ← requireWindow metric window
    let dates ← desk.sampleDates metric.measure window
    match leastText dates with
    | some start => return .compare dates [start] false
    | none => throw (.unresolved (.noSamples metric.key))
  | .latestQuarters => do
    let periods ← reportPeriods desk.today .quarter 2
    return .compare (periods.drop 1) (periods.take 1) false
  | .lag => do
    let window ← requireWindow metric window
    let dates ← desk.sampleDates metric.measure window
    return .lag dates

/-- The records of a plan, sorted by rank or by time. -/
def execute (metric : Metric) (filter : Filter) (plan : Plan) : Analysis (List ChangeRecord) := do
  let records ← match plan with
    | .compare current prior strict => do
      let rows ← Analysis.ask
        (.comparison ⟨metric.measure, metric.entity, filter, current⟩ prior strict)
      pure (rows.filterMap ChangeRecord.ofRow?)
    | .lag dates => do
      let rows ← Analysis.ask (.series ⟨metric.measure, metric.entity, filter, dates⟩)
      pure (SeriesPoint.lagChanges (rows.filterMap SeriesPoint.ofRow?))
  return if metric.isPointInTime then ChangeRecord.sortByRank records
    else ChangeRecord.sortByTime records

/-- All change records of a metric, sorted. Metrics without a window ignore one. -/
def computeChange (desk : Desk) (metric : Metric) (filter : Filter) (window : Option Window) :
    Analysis (List ChangeRecord) := do
  let plan ← desk.plan metric window
  execute metric filter plan

end Desk

end Bourse
