import Bourse.Desk.Plan

/-!
# Industries

Time series of industries for the metrics with a window, and the breadth of the market: how many
tickers of each industry rose and fell at the latest session, and how much on average.
-/

namespace Bourse

def IndustryPoint.ofChange (r : ChangeRecord) : IndustryPoint :=
  ⟨r.date, r.entity, Industry.color r.entity, r.percentChange⟩

/-- A closing price of a ticker at a session. -/
structure Close where
  code : String
  industry : String
  date : String
  price : Float

namespace Close

/-- The close in a row that has all of its parts. -/
def ofRow? (r : Row) : Option Close := do
  let code ← r.text? "code"
  let industry ← r.text? "industry"
  let date ← r.text? "d"
  let price ← r.float? "v"
  return ⟨code, industry, date, price⟩

/-- The price of a ticker at a session, the last one when there are several. -/
def price? (closes : List Close) (code date : String) : Option Float :=
  (closes.findRev? fun c => c.code == code && c.date == date).map (·.price)

/-- The tickers, each with the industry of its first close. -/
def tickers (closes : List Close) : List (String × String) :=
  (closes.map (·.code)).eraseDups.filterMap fun code =>
    (closes.find? (·.code == code)).map fun c => (code, c.industry)

end Close

/-- The mean of some numbers, added from left to right; none of no numbers. -/
def mean : List Float → Option Float
  | [] => none
  | x :: rest => some (rest.foldl (· + ·) x / Number.ofInt (rest.length + 1))

/-- The sessions that breadth compares. -/
structure BreadthSessions where
  latest : String
  previous : String
  week : String
  month : String

namespace IndustryBreadth

/-- The mean change of an industry's tickers from a baseline session to the latest one. -/
def meanChange (closes : List Close) (industry latest baseline : String) : Option Float :=
  mean (((Close.tickers closes).filter (·.2 == industry)).filterMap fun ticker =>
    percentChange (Close.price? closes ticker.1 baseline) (Close.price? closes ticker.1 latest))

/-- A count of an industry: that of its last row, and zero without one. -/
def count (counts : List Row) (industry column : String) : Int64 :=
  ((counts.findRev? fun r => r.text? "industry" == some industry).bind
    (·.int? column)).getD 0

def ofParts (counts : List Row) (closes : List Close) (s : BreadthSessions) (industry : String) :
    IndustryBreadth where
  industry := industry
  color := Industry.color industry
  increase := count counts industry "increase"
  decrease := count counts industry "decrease"
  equal := count counts industry "equal"
  high := count counts industry "high"
  low := count counts industry "low"
  dayChange := meanChange closes industry s.latest s.previous
  weekChange := meanChange closes industry s.latest s.week
  monthChange := meanChange closes industry s.latest s.month

/-- The industries that have counts or closes, in ascending order. -/
def industries (counts : List Row) (closes : List Close) : List String :=
  let names := counts.filterMap (·.text? "industry") ++ (Close.tickers closes).map (·.2)
  (names.mergeSort fun a b => a ≤ b).eraseReps

def ofRows (counts closes : List Row) (s : BreadthSessions) : List IndustryBreadth :=
  let closes := closes.filterMap Close.ofRow?
  (industries counts closes).map (ofParts counts closes s)

end IndustryBreadth

namespace Desk

/-- The time series of a metric with a window, one point for each change record. -/
def industrySeries (desk : Desk) (metric : Metric) (filter : Filter) (window : Window) :
    Analysis (List IndustryPoint) :=
  if metric.isWindowed then
    desk.gateway.getOrCompute (Topic.series metric filter window).key.text do
      let records ← desk.computeChange metric filter (some window)
      return records.map IndustryPoint.ofChange
  else throw (.invalid (.notASeries metric.key))

/-- The latest session, the one before it, the fifth latest one, and that of a month before. -/
def breadthSessions (desk : Desk) : Analysis BreadthSessions := do
  let s ← desk.recentSessions .trades
  let previous ← desk.nearestSession .trades ((s.latest.addDays? (-1)).getD s.latest)
  let month ← desk.nearestSession .trades ((s.latest.subMonths? 1).getD s.latest)
  return ⟨s.latest.iso, previous.iso, s.lastFive.iso, month.iso⟩

def marketBreadth (desk : Desk) (filter : Filter) : Analysis (List IndustryBreadth) :=
  desk.gateway.getOrCompute (Topic.breadth filter).key.text do
    let s ← desk.breadthSessions
    let counts ← Analysis.ask (.breadthCounts filter s.latest s.previous)
    let closes ← Analysis.ask (.closes filter [s.latest, s.previous, s.week, s.month])
    return IndustryBreadth.ofRows counts closes s

end Desk

end Bourse
