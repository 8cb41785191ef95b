import Bourse.Filter
import Bourse.Text.Basic
import Bourse.Window

/-!
# Market queries

The parameters that the market's routes share, as text. What a route needs is read from them on
demand, so a parameter that it does not read may hold anything.
-/

namespace Bourse.Web

structure MarketQuery where
  exchange : Option String
  industries : Option String
  windowType : Option String
  order : Option String
  limit : Option String

namespace MarketQuery

def defaultOrder : UInt32 := 4

def defaultLimit : Nat := 10

def empty : MarketQuery := ⟨none, none, none, none, none⟩

/-- The labels between commas, without the blank ones. -/
def labels (q : MarketQuery) : List String :=
  match q.industries with
  | some s => (Text.split ',' s).filter fun label => Text.trim label ≠ ""
  | none => []

def filter (q : MarketQuery) : Except Fault Filter :=
  Filter.make (q.exchange.getD "ALL") q.labels

def readOrder (raw : String) : Except Fault UInt32 :=
  match Text.readNat (UInt32.size - 1) (Text.trim raw) with
  | .ok n => .ok (.ofNat n)
  | .error _ => .error (.invalid (.orderText raw))

def readLimit (raw : String) : Except Fault Nat :=
  match Text.readNat (UInt64.size - 1) (Text.trim raw) with
  | .ok n => .ok n
  | .error _ => .error (.invalid (.limitText raw))

def window (q : MarketQuery) : Except Fault Window := do
  let unit ← match q.windowType with
    | some text => Period.read text
    | none => .ok .quarter
  let order ← match q.order with
    | some raw => readOrder raw
    | none => .ok defaultOrder
  Window.make unit order

def limitValue (q : MarketQuery) : Except Fault Nat :=
  match q.limit with
  | some raw => readLimit raw
  | none => .ok defaultLimit

def parameterNames : List String := ["exchange", "industries", "type", "order", "limit"]

/-- The first name that is read and stands twice among the names. -/
def repeated? : List String → Option String
  | names => go [] names
where
  go (seen : List String) : List String → Option String
    | [] => none
    | name :: rest =>
      if !parameterNames.contains name then go seen rest
      else if seen.contains name then some name
      else go (name :: seen) rest

/-- The query of some pairs; other names are passed over, and a repeated one is refused. -/
def ofPairs (pairs : List (String × String)) : Except String MarketQuery :=
  match repeated? (pairs.map (·.1)) with
  | some name => .error name
  | none => .ok ⟨pairs.lookup "exchange", pairs.lookup "industries", pairs.lookup "type",
      pairs.lookup "order", pairs.lookup "limit"⟩

end MarketQuery

end Bourse.Web
