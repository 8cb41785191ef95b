import Bourse.Filter
import Bourse.Metric
import Bourse.Statement.Sql
import Bourse.Window

/-!
# Statements

The questions that analytics put to the market's tables, each with its statement text. What a
statement asks is data, so the same statement can be written as text for a database or answered
directly from tables.
-/

namespace Bourse

/-- The sums of a measure for each date and entity, at the given dates. -/
structure Aggregate where
  measure : Measure
  entity : Entity
  filter : Filter
  dates : List String
deriving DecidableEq

inductive Statement where
  /-- The five latest sessions, and the sessions nearest to three calendar targets. -/
  | sessionAnchors (table : SessionTable) (targets : SessionTargets)
  /-- The five latest sessions. -/
  | recentSessions (table : SessionTable)
  /-- The latest session on or before a day. -/
  | nearestSession (table : SessionTable) (target : Date)
  /-- Sums at the dates of `current` beside those at prior dates, for equal entities. `strict` asks
  for a current date that is later than the prior one. -/
  | comparison (current : Aggregate) (prior : List String) (strict : Bool)
  /-- The sums themselves. -/
  | series (aggregate : Aggregate)
  /-- Per industry, how tickers closed at the latest session against the previous one. -/
  | breadthCounts (filter : Filter) (latest previous : String)
  /-- Closing prices of every ticker at the given sessions. -/
  | closes (filter : Filter) (dates : List String)

namespace Sql

/-- The conditions of a filter on the table of tickers, which goes by `info`. -/
def predicates (filter : Filter) (info : String) : List Piece :=
  [.text (" AND " ++ info ++ ".exchange IN ")] ++ texts (filter.exchanges.map Exchange.name)
    ++ [.text (" AND " ++ info ++ ".industry IN ")] ++ texts filter.industries
    ++ [.text (" AND " ++ info ++ ".security_type IN ")] ++ texts Filter.securityTypes

/-- The condition that picks the rows of a measure out of its table. -/
def measureCondition : Measure → List Piece
  | .trade _ => []
  | .ratio code => [.text " AND t.ratio_code = ", .bind (.text code)]
  | .report lines => .text " AND LOWER(t.report_name) IN " :: texts (lines.map Text.lower)

/-- Text that only measures with report lines have. -/
def ifReported (measure : Measure) (s : String) : String :=
  if measure.hasReportLines then s else ""

def aggregate (a : Aggregate) : List Piece :=
  let date := a.measure.dateColumn
  let group := a.entity.column
  [.text ("SELECT t." ++ date ++ " AS d, " ++ group ++ " AS entity"
      ++ ifReported a.measure ", LOWER(t.report_name) AS report"
      ++ ", SUM(t." ++ a.measure.valueColumn ++ ") AS v FROM " ++ a.measure.table
      ++ " t INNER JOIN ticker_info i ON i.code = t.code WHERE t." ++ date ++ " IN ")]
    ++ texts a.dates ++ predicates a.filter "i" ++ measureCondition a.measure
    ++ [.text (" GROUP BY t." ++ date ++ ", " ++ group
      ++ ifReported a.measure ", LOWER(t.report_name)")]

def comparison (current : Aggregate) (prior : List String) (strict : Bool) : List Piece :=
  let measure := current.measure
  [.text ("SELECT cur.d AS period, prev.d AS prior_period, cur.entity AS entity"
      ++ ifReported measure ", cur.report AS report"
      ++ ", prev.v AS prior_value, cur.v AS current_value FROM (")]
    ++ aggregate current ++ [.text ") AS cur INNER JOIN ("]
    ++ aggregate { current with dates := prior }
    ++ [.text ((if strict then ") AS prev ON cur.d > prev.d" else ") AS prev ON cur.d >= prev.d")
      ++ " AND cur.entity = prev.entity"
      ++ ifReported measure " AND cur.report = prev.report")]

def breadthCounts (filter : Filter) (latest previous : String) : List Piece :=
  [.text ("SELECT i.industry AS industry, "
      ++ "SUM(CASE WHEN t.close_price > prev.close_price THEN 1 ELSE 0 END) AS increase, "
      ++ "SUM(CASE WHEN t.close_price < prev.close_price THEN 1 ELSE 0 END) AS decrease, "
      ++ "SUM(CASE WHEN t.close_price = prev.close_price THEN 1 ELSE 0 END) AS equal, "
      ++ "SUM(CASE WHEN t.close_price >= t.ceiling_price THEN 1 ELSE 0 END) AS high, "
      ++ "SUM(CASE WHEN t.close_price <= t.floor_price THEN 1 ELSE 0 END) AS low "
      ++ "FROM ticker_trade t "
      ++ "INNER JOIN ticker_trade prev ON prev.code = t.code AND prev.trade_date = "),
    .bind (.text previous),
    .text " INNER JOIN ticker_info i ON i.code = t.code WHERE t.trade_date = ",
    .bind (.text latest)]
    ++ predicates filter "i" ++ [.text " GROUP BY i.industry"]

def closes (filter : Filter) (dates : List String) : List Piece :=
  [.text ("SELECT t.code AS code, i.industry AS industry, t.trade_date AS d, t.close_price AS v "
      ++ "FROM ticker_trade t INNER JOIN ticker_info i ON i.code = t.code WHERE t.trade_date IN ")]
    ++ texts dates ++ predicates filter "i"

def recentSessions (table : SessionTable) : String :=
  let column := table.dateColumn
  "SELECT 'recent' AS anchor, r.d AS session_date FROM (SELECT DISTINCT " ++ column
    ++ " AS d FROM " ++ table.name ++ " WHERE " ++ column
    ++ " IS NOT NULL ORDER BY d DESC LIMIT 5) AS r"

/-- The part of a statement that finds the session nearest to a target on one side of it. -/
def anchorPart (table : SessionTable) (anchor label relation order : String) (target : Date) :
    List Piece :=
  let column := table.dateColumn
  [.text (" UNION ALL SELECT '" ++ anchor ++ "' AS anchor, " ++ label
      ++ ".d AS session_date FROM (SELECT " ++ column ++ " AS d FROM " ++ table.name ++ " WHERE "
      ++ column ++ " IS NOT NULL AND " ++ column ++ " " ++ relation ++ " "),
    .bind (.date target),
    .text (" ORDER BY d " ++ order ++ " LIMIT 1) AS " ++ label)]

def sessionAnchors (table : SessionTable) (targets : SessionTargets) : List Piece :=
  .text (recentSessions table)
    :: anchorPart table "last_quarter" "q" "<=" "DESC" targets.lastQuarterEnd
    ++ anchorPart table "first_year" "y" ">=" "ASC" targets.firstOfYear
    ++ anchorPart table "last_year" "b" ">=" "ASC" targets.oneYearBack

def nearestSession (table : SessionTable) (target : Date) : List Piece :=
  let column := table.dateColumn
  [.text ("SELECT " ++ column ++ " AS session_date FROM " ++ table.name ++ " WHERE " ++ column
      ++ " IS NOT NULL AND " ++ column ++ " <= "),
    .bind (.date target),
    .text " ORDER BY session_date DESC LIMIT 1"]

end Sql

namespace Statement

/-- The text of a statement, in pieces. -/
def pieces : Statement → List Sql.Piece
  | sessionAnchors table targets => Sql.sessionAnchors table targets
  | recentSessions table => [.text (Sql.recentSessions table)]
  | nearestSession table target => Sql.nearestSession table target
  | comparison current prior strict => Sql.comparison current prior strict
  | series aggregate => Sql.aggregate aggregate
  | breadthCounts filter latest previous => Sql.breadthCounts filter latest previous
  | closes filter dates => Sql.closes filter dates

def text (style : Placeholder) (s : Statement) : String :=
  Sql.text style s.pieces

def parameters (s : Statement) : List Cell :=
  Sql.parameters s.pieces

end Statement

end Bourse
