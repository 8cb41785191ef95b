import Bourse.Change
import Bourse.Date

/-!
# Reports

The results that analytics serve: resolved sessions, one row per ticker for rankings, and one row
per industry for series and breadth. Changes are percentages, absent where they are undefined.
-/

namespace Bourse

/-- The five named sessions of one table. -/
structure SessionDates where
  latest : Date
  lastFive : Date
  lastQuarter : Date
  firstYear : Date
  lastYear : Date
deriving DecidableEq

/-- The latest session and the fifth latest one. -/
structure RecentSessions where
  latest : Date
  lastFive : Date
deriving DecidableEq

/-- Changes of a ticker's closing price against the named sessions. -/
structure PricePerformance where
  code : String
  perFive : Option Float
  perQuarter : Option Float
  perYtd : Option Float
  perYear : Option Float
deriving DecidableEq

/-- Changes of a ticker's traded value against the quarter anchors. -/
structure LiquidityPerformance where
  code : String
  perQuarter : Option Float
  perYear : Option Float
  perFourYear : Option Float
deriving DecidableEq

/-- Changes of a ticker's equity lines between the two latest quarters. -/
structure EquityPerformance where
  code : String
  ownerEquity : Option Float
  sharePremium : Option Float
  nonControllingInterests : Option Float
  undistributedEarnings : Option Float
deriving DecidableEq

/-- Changes of a ticker's debt lines between the two latest quarters. -/
structure LiabilitiesPerformance where
  code : String
  shortTermDebt : Option Float
  longTermDebt : Option Float
deriving DecidableEq

/-- A ticker ranked by its change of price over five sessions. -/
structure TopMover where
  code : String
  closePrice : Option Float
  roc5 : Option Float
deriving DecidableEq

/-- One point of an industry's series. -/
structure IndustryPoint where
  date : String
  industry : String
  color : String
  perChange : Option Float
deriving DecidableEq

/-- How the tickers of an industry moved: how many rose, fell and stayed, how many closed at their
ceiling and floor, and their mean changes. -/
structure IndustryBreadth where
  industry : String
  color : String
  increase : Int64
  decrease : Int64
  equal : Int64
  high : Int64
  low : Int64
  dayChange : Option Float
  weekChange : Option Float
  monthChange : Option Float
deriving DecidableEq

end Bourse
