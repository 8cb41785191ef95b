import Bourse.Desk.Industries
import Bourse.Desk.Rankings
import Bourse.Web.MarketQuery
import Bourse.Web.Request
import Bourse.Web.Response

/-!
# Routes

The calls that the service answers. A call is routed by its path and method, its parameters are read
before the desk is asked, and every answer but that to a preflight carries the request's id.
-/

namespace Bourse.Web

inductive Route where
  | health
  | priceChange
  | liquidityChange
  | equityChange
  | liabilitiesChange
  | breadth
  | topMovers
  | series (metric : Metric)
deriving DecidableEq

namespace Route

def marketPath (name : String) : String :=
  "/api/market/" ++ name

def all : List (String × Route) :=
  [("/health", health),
    (marketPath "price-change", priceChange),
    (marketPath "liquidity-change", liquidityChange),
    (marketPath "equity-change", equityChange),
    (marketPath "liabilities-change", liabilitiesChange),
    (marketPath "breadth", breadth),
    (marketPath "top-movers", topMovers)]
  ++ (Metric.all.filter Metric.isWindowed).map fun metric => (marketPath metric.key, series metric)

def ofPath? (path : String) : Option Route :=
  all.lookup path

end Route

/-- The answer to an analysis: its data, or the failure that its fault amounts to. -/
def respond {α : Type} [Payload α] (a : Analysis α) : Program Response :=
  a.run.bind fun outcome => .done (match outcome with
    | .ok data => .success data
    | .error fault => .failure (.ofFault fault))

/-- The answer of a route to a query. -/
def Route.answer (desk : Desk) (query : MarketQuery) : Route → Program Response
  | health => .done (.json 200 (.object [("status", .string "ok")]))
  | priceChange => respond do desk.priceChange (← query.filter)
  | liquidityChange => respond do desk.liquidityChange (← query.filter)
  | equityChange => respond do desk.equityChange (← query.filter)
  | liabilitiesChange => respond do desk.liabilitiesChange (← query.filter)
  | breadth => respond do desk.marketBreadth (← query.filter)
  | topMovers => respond do
    let filter ← query.filter
    let limit ← query.limitValue
    desk.topMovers filter limit
  | series metric => respond do
    let filter ← query.filter
    let window ← query.window
    desk.industrySeries metric filter window

/-- The answer to a call whose path is known. The health check takes no parameters. -/
def Route.answerTo (desk : Desk) (route : Route) (query : String) : Program Response :=
  if route = .health then route.answer desk .empty
  else match MarketQuery.ofPairs (queryPairs query) with
    | .ok parameters => route.answer desk parameters
    | .error name => .done (.text 400
        ("Failed to deserialize query string: duplicate field " ++ "\x60" ++ name ++ "\x60"))

/-- The answer to a call, under the id that it supplies or else under `freshId`. A preflight is
answered before anything else, and `HEAD` as `GET` but without the body. -/
def answerCall (desk : Desk) (freshId : String) (r : Request) : Program Response :=
  if r.method = "OPTIONS" then .done (.empty 200)
  else
    let id := r.suppliedId.getD freshId
    let (path, query) := r.parts
    match Route.ofPath? path with
    | none => .done ((Response.empty 404).withRequestId id)
    | some route =>
      if r.method = "GET" then
        (route.answerTo desk query).bind fun a => .done (a.withRequestId id)
      else if r.method = "HEAD" then
        (route.answerTo desk query).bind fun a => .done (a.withoutBody.withRequestId id)
      else .done ((Response.empty 405).withRequestId id)

end Bourse.Web
