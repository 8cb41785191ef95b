import Bourse.Fault

/-!
# Metrics

The catalogue of analytics: what each one sums, over which entities, and how the dates that it
compares are chosen.
-/

namespace Bourse

/-- The tables whose rows are dated by trading sessions. -/
inductive SessionTable where
  | trades
  | ratios
deriving DecidableEq, Repr

namespace SessionTable

def name : SessionTable → String
  | trades => "ticker_trade"
  | ratios => "ratio"

def dateColumn : SessionTable → String
  | trades => "trade_date"
  | ratios => "report_date"

end SessionTable

/-- Where a metric's values come from: a column of the trades, the values of one ratio, or the
values of some report lines, whatever the case of their names. -/
inductive Measure where
  | trade (column : String)
  | ratio (code : String)
  | report (lines : List String)
deriving DecidableEq

namespace Measure

def table : Measure → String
  | trade _ => "ticker_trade"
  | ratio _ => "ratio"
  | report _ => "financial_report"

def dateColumn : Measure → String
  | trade _ => "trade_date"
  | ratio _ => "report_date"
  | report _ => "period"

def valueColumn : Measure → String
  | trade column => column
  | ratio _ | report _ => "value"

/-- The table whose sessions date this measure; none for report periods. -/
def sessions : Measure → Option SessionTable
  | trade _ => some .trades
  | ratio _ => some .ratios
  | report _ => none

def hasReportLines : Measure → Bool
  | report _ => true
  | _ => false

end Measure

/-- What values are summed for. -/
inductive Entity where
  | ticker
  | industry
deriving DecidableEq, Repr

def Entity.column : Entity → String
  | ticker => "t.code"
  | industry => "i.industry"

/-- How the compared dates are chosen. -/
inductive WindowStrategy where
  /-- The latest session against the other four named sessions. -/
  | sessionAnchors
  /-- The latest session against one quarter, four quarters and four years back. -/
  | quarterAnchors
  /-- Every sampled date against the oldest one. -/
  | offset
  /-- The latest completed quarter against the one before it. -/
  | latestQuarters
  /-- Every date against the one before it, for each entity and report line. -/
  | lag
deriving DecidableEq, Repr

inductive Metric where
  | priceChange
  | liquidityChange
  | marketCapChange
  | industryLiquidityChange
  | equityIndustryChange
  | liabilitiesIndustryChange
  | equityChange
  | liabilitiesChange
  | netRevenue
  | grossProfit
  | operatingProfit
  | eps
  | ebitda
  | cashDividend
deriving DecidableEq, Repr

namespace Metric

def all : List Metric :=
  [priceChange, liquidityChange, marketCapChange, industryLiquidityChange, equityIndustryChange,
    liabilitiesIndustryChange, equityChange, liabilitiesChange, netRevenue, grossProfit,
    operatingProfit, eps, ebitda, cashDividend]

/-- The name of a metric in routes and cache keys. -/
def key : Metric → String
  | priceChange => "price-change"
  | liquidityChange => "liquidity-change"
  | marketCapChange => "market-cap-change"
  | industryLiquidityChange => "industry-liquidity-change"
  | equityIndustryChange => "equity-industry-change"
  | liabilitiesIndustryChange => "liabilities-industry-change"
  | equityChange => "equity-change"
  | liabilitiesChange => "liabilities-change"
  | netRevenue => "net-revenue"
  | grossProfit => "gross-profit"
  | operatingProfit => "operating-profit"
  | eps => "eps"
  | ebitda => "ebitda"
  | cashDividend => "cash-dividend"

def read (key : String) : Except Fault Metric :=
  match all.find? (·.key == key) with
  | some metric => .ok metric
  | none => .error (.invalid (.metric key))

def equityLines : List String :=
  ["Owner's equity", "Share premium", "Non-controlling interests", "Undistributed earnings"]

def debtLines : List String :=
  ["Short-term debt", "Long-term debt"]

def measure : Metric → Measure
  | priceChange => .trade "close_price"
  | liquidityChange | industryLiquidityChange => .trade "total_val"
  | marketCapChange => .ratio "MARKETCAP"
  | equityIndustryChange => .report ["Owner's equity"]
  | liabilitiesIndustryChange => .report ["Liabilities", "Total liabilities"]
  | equityChange => .report equityLines
  | liabilitiesChange => .report debtLines
  | netRevenue => .report ["Net revenue", "Net interest income"]
  | grossProfit => .report ["Gross profit"]
  | operatingProfit => .report ["Operating profit"]
  | eps => .ratio "EPS_TR"
  | ebitda => .ratio "OPERATING_EBIT_MARGIN_QR"
  | cashDividend => .ratio "DIVIDEND_PAID_TR"

def entity : Metric → Entity
  | priceChange | liquidityChange | equityChange | liabilitiesChange => .ticker
  | _ => .industry

def strategy : Metric → WindowStrategy
  | priceChange => .sessionAnchors
  | liquidityChange => .quarterAnchors
  | marketCapChange | industryLiquidityChange | equityIndustryChange
  | liabilitiesIndustryChange => .offset
  | equityChange | liabilitiesChange => .latestQuarters
  | _ => .lag

/-- Whether the metric is asked for with a window. -/
def isWindowed (m : Metric) : Bool :=
  m.strategy = .offset || m.strategy = .lag

/-- Whether the metric ranks tickers by their change; the others are time series of industries. -/
def isPointInTime (m : Metric) : Bool :=
  m.entity = .ticker

end Metric

end Bourse
