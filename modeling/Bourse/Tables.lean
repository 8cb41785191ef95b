import Bourse.Change.Order
import Bourse.Statement

/-!
# Tables

The four tables of the market and what each statement means on them. A ticker takes part when its
exchange and industry are in the filter and it is a stock or a fund; facts are joined to it by code.
Text is compared code point by code point, dates included, a missing number makes every comparison
false, and a sum passes over missing numbers and makes good what its steps lose to rounding.
-/

namespace Bourse

structure Ticker where
  code : String
  exchange : String
  securityType : String
  industry : String
deriving DecidableEq

structure Trade where
  code : String
  date : String
  close : Option Float
  total : Option Float
  ceiling : Option Float
  floor : Option Float
deriving DecidableEq

structure RatioFact where
  code : String
  date : String
  ratio : String
  value : Option Float
deriving DecidableEq

structure ReportFact where
  code : String
  period : String
  line : String
  value : Option Float
deriving DecidableEq

structure Tables where
  tickers : List Ticker
  trades : List Trade
  ratios : List RatioFact
  reports : List ReportFact

def Filter.admits (f : Filter) (t : Ticker) : Bool :=
  (f.exchanges.map Exchange.name).contains t.exchange && f.industries.contains t.industry
    && Filter.securityTypes.contains t.securityType

/-- A number read from one of the tables, before it is joined to a ticker. -/
structure Fact where
  code : String
  date : String
  line : Option String
  value : Option Float

/-- A sum for one date, entity and report line. -/
structure Sum where
  date : String
  entity : String
  line : Option String
  value : Option Float

/-- A sum of doubles on the way, and what its steps have lost to rounding so far. -/
structure RunningSum where
  sum : Float
  lost : Float

namespace RunningSum

def zero : RunningSum := ⟨0.0, 0.0⟩

/-- The digits that a step loses are those of the smaller number. They are found by taking the
greater one away again. -/
def add (s : RunningSum) (x : Float) : RunningSum :=
  let sum := s.sum + x
  let lost := if x.abs < s.sum.abs then (s.sum - sum) + x else (x - sum) + s.sum
  ⟨sum, s.lost + lost⟩

/-- The sum with what was lost put back, unless that is no finite number. -/
def value (s : RunningSum) : Float :=
  if s.lost.isFinite then s.sum + s.lost else s.sum

end RunningSum

namespace Tables

def empty : Tables := ⟨[], [], [], []⟩

/-- A number as a table keeps it: one that is no number counts as missing. -/
def kept (value : Option Float) : Option Float :=
  value.filter fun x => !x.isNaN

def insertTicker (t : Tables) (row : Ticker) : Tables :=
  let others := t.tickers.filter fun r => r.code != row.code
  { t with tickers := others ++ [row] }

def insertTrade (t : Tables) (row : Trade) : Tables :=
  let others := t.trades.filter fun r => (r.code, r.date) != (row.code, row.date)
  let row : Trade := { row with
    close := kept row.close
    total := kept row.total
    ceiling := kept row.ceiling
    floor := kept row.floor }
  { t with trades := others ++ [row] }

def insertRatio (t : Tables) (row : RatioFact) : Tables :=
  let others := t.ratios.filter fun r =>
    (r.code, r.date, r.ratio) != (row.code, row.date, row.ratio)
  { t with ratios := others ++ [{ row with value := kept row.value }] }

def insertReport (t : Tables) (row : ReportFact) : Tables :=
  let others := t.reports.filter fun r =>
    (r.code, r.period, r.line) != (row.code, row.period, row.line)
  { t with reports := others ++ [{ row with value := kept row.value }] }

def sessionDates (t : Tables) : SessionTable → List String
  | .trades => t.trades.map (·.date)
  | .ratios => t.ratios.map (·.date)

/-- The distinct dates of a table, the latest first. -/
def latestFirst (t : Tables) (table : SessionTable) : List String :=
  ((t.sessionDates table).mergeSort fun a b => b ≤ a).eraseReps

def lastOnOrBefore (t : Tables) (table : SessionTable) (target : String) : Option String :=
  (t.latestFirst table).find? (· ≤ target)

def firstOnOrAfter (t : Tables) (table : SessionTable) (target : String) : Option String :=
  (t.latestFirst table).findRev? (target ≤ ·)

def anchorRow (anchor : String) (date : String) : Row :=
  ⟨[("anchor", .text anchor), ("session_date", .text date)]⟩

def recentRows (t : Tables) (table : SessionTable) : List Row :=
  ((t.latestFirst table).take 5).map (anchorRow "recent")

def anchorRows (t : Tables) (table : SessionTable) (targets : SessionTargets) : List Row :=
  t.recentRows table
    ++ ((t.lastOnOrBefore table targets.lastQuarterEnd.iso).map (anchorRow "last_quarter")).toList
    ++ ((t.firstOnOrAfter table targets.firstOfYear.iso).map (anchorRow "first_year")).toList
    ++ ((t.firstOnOrAfter table targets.oneYearBack.iso).map (anchorRow "last_year")).toList

def nearestRows (t : Tables) (table : SessionTable) (target : Date) : List Row :=
  ((t.lastOnOrBefore table target.iso).map fun date => ⟨[("session_date", .text date)]⟩).toList

def admitted? (t : Tables) (f : Filter) (code : String) : Option Ticker :=
  t.tickers.find? fun ticker => ticker.code == code && f.admits ticker

def tradeValue (column : String) (r : Trade) : Option Float :=
  if column = "close_price" then r.close
  else if column = "total_val" then r.total
  else if column = "ceiling_price" then r.ceiling
  else if column = "floor_price" then r.floor
  else none

def facts (t : Tables) : Measure → List Fact
  | .trade column => t.trades.map fun r => ⟨r.code, r.date, none, tradeValue column r⟩
  | .ratio code =>
    (t.ratios.filter (·.ratio == code)).map fun r => ⟨r.code, r.date, none, r.value⟩
  | .report lines =>
    let wanted := lines.map Text.lower
    (t.reports.filter fun r => wanted.contains (Text.asciiLower r.line)).map fun r =>
      ⟨r.code, r.period, some (Text.asciiLower r.line), r.value⟩

def entityOf (ticker : Ticker) : Entity → String
  | .ticker => ticker.code
  | .industry => ticker.industry

/-- The facts that an aggregate sums, by date, entity and line. -/
def joined (t : Tables) (a : Aggregate) : List Sum :=
  ((t.facts a.measure).filter fun fact => a.dates.contains fact.date).filterMap fun fact =>
    (t.admitted? a.filter fact.code).map fun ticker =>
      ⟨fact.date, entityOf ticker a.entity, fact.line, fact.value⟩

/-- The sum of the numbers that are there; none when none is, or when the sum is no number. -/
def total (values : List (Option Float)) : Option Float :=
  let present := values.filterMap id
  if present.isEmpty then none else kept (some (present.foldl RunningSum.add .zero).value)

def compareKeys (a b : String × String × Option String) : Ordering :=
  (compare a.1 b.1).then ((compare a.2.1 b.2.1).then (compareReports a.2.2 b.2.2))

/-- The sums of an aggregate, in ascending order of date, entity and line. -/
def sums (t : Tables) (a : Aggregate) : List Sum :=
  let rows := t.joined a
  let keys := ((rows.map fun r => (r.date, r.entity, r.line)).mergeSort fun a b =>
    (compareKeys a b).isLE).eraseReps
  keys.map fun key =>
    ⟨key.1, key.2.1, key.2.2,
      total ((rows.filter fun r => (r.date, r.entity, r.line) = key).map (·.value))⟩

def numberCell (value : Option Float) : Cell :=
  match value with
  | some x => .double x
  | none => .null

/-- The cell of a report line, in statements that have one. -/
def lineCells (line : Option String) : List (String × Cell) :=
  match line with
  | some s => [("report", .text s)]
  | none => []

def sumRow (s : Sum) : Row :=
  ⟨[("d", .text s.date), ("entity", .text s.entity)] ++ lineCells s.line
    ++ [("v", numberCell s.value)]⟩

def comparisonRow (current prior : Sum) : Row :=
  ⟨[("period", .text current.date), ("prior_period", .text prior.date),
    ("entity", .text current.entity)] ++ lineCells current.line
    ++ [("prior_value", numberCell prior.value), ("current_value", numberCell current.value)]⟩

def comparable (strict : Bool) (current prior : Sum) : Bool :=
  (if strict then decide (prior.date < current.date) else decide (prior.date ≤ current.date))
    && current.entity == prior.entity && current.line == prior.line

def comparisonRows (t : Tables) (current : Aggregate) (prior : List String) (strict : Bool) :
    List Row :=
  let priors := t.sums { current with dates := prior }
  (t.sums current).flatMap fun c => (priors.filter (comparable strict c)).map (comparisonRow c)

/-- A comparison of two numbers, false when one is missing. -/
def holds (relation : Float → Float → Bool) : Option Float → Option Float → Bool
  | some x, some y => relation x y
  | _, _ => false

/-- A trade at the latest session, the same ticker's trade at the previous one, and its industry. -/
structure Pairing where
  industry : String
  latest : Trade
  previous : Trade

def pairings (t : Tables) (f : Filter) (latest previous : String) : List Pairing :=
  (t.trades.filter (·.date == latest)).flatMap fun l =>
    (t.trades.filter fun p => p.code == l.code && p.date == previous).filterMap fun p =>
      (t.admitted? f l.code).map fun ticker => ⟨ticker.industry, l, p⟩

def countCell (pairs : List Pairing) (p : Pairing → Bool) : Cell :=
  .int (.ofNat (pairs.countP p))

def countRow (industry : String) (pairs : List Pairing) : Row :=
  ⟨[("industry", .text industry),
    ("increase", countCell pairs fun p => holds (fun x y => y < x) p.latest.close p.previous.close),
    ("decrease", countCell pairs fun p => holds (fun x y => x < y) p.latest.close p.previous.close),
    ("equal", countCell pairs fun p => holds (· == ·) p.latest.close p.previous.close),
    ("high", countCell pairs fun p => holds (fun x y => y ≤ x) p.latest.close p.latest.ceiling),
    ("low", countCell pairs fun p => holds (fun x y => x ≤ y) p.latest.close p.latest.floor)]⟩

def countRows (t : Tables) (f : Filter) (latest previous : String) : List Row :=
  let pairs := t.pairings f latest previous
  let industries := ((pairs.map (·.industry)).mergeSort fun a b => a ≤ b).eraseReps
  industries.map fun industry => countRow industry (pairs.filter (·.industry == industry))

def closeRows (t : Tables) (f : Filter) (dates : List String) : List Row :=
  (t.trades.filter fun r => dates.contains r.date).filterMap fun r =>
    (t.admitted? f r.code).map fun ticker =>
      ⟨[("code", .text r.code), ("industry", .text ticker.industry), ("d", .text r.date),
        ("v", numberCell r.close)]⟩

/-- The rows that a statement finds. -/
def answer (t : Tables) : Statement → List Row
  | .sessionAnchors table targets => t.anchorRows table targets
  | .recentSessions table => t.recentRows table
  | .nearestSession table target => t.nearestRows table target
  | .comparison current prior strict => t.comparisonRows current prior strict
  | .series aggregate => (t.sums aggregate).map sumRow
  | .breadthCounts filter latest previous => t.countRows filter latest previous
  | .closes filter dates => t.closeRows filter dates

end Tables

end Bourse
