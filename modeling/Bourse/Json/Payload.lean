import Bourse.Filter
import Bourse.Json.Printer
import Bourse.Json.Reader
import Bourse.Report
import Bourse.Window

/-!
# Payloads

The values that are cached and served, as JSON. A record is written as an object; it is read from an
object by its field names, or from an array of its fields in order. An absent change is written as
`null` and so is a number that is not finite, which reads back as absent.
-/

namespace Bourse

class Payload (α : Type) where
  encode : α → Json
  decode : Json → Option α

namespace Payload

def write {α : Type} [Payload α] (a : α) : String :=
  (encode a).text

/-- The value in a text; none when the text is no JSON or holds another kind of value. -/
def read {α : Type} [Payload α] (s : String) : Option α :=
  (Json.read s).bind decode

/-- A field that must be there. -/
def required {α : Type} [Payload α] (field : Option Json) : Option α :=
  field.bind decode

/-- A field that may be missing or `null`. -/
def optional {α : Type} [Payload α] : Option Json → Option (Option α)
  | none | some .null => some none
  | some value => (decode value).map some

instance : Payload String where
  encode := .string
  decode
    | .string s => some s
    | _ => none

instance : Payload Float where
  encode := .ofFloat
  decode
    | .number n => let x := n.toFloat; if x.isFinite then some x else none
    | _ => none

instance {α : Type} [Payload α] : Payload (Option α) where
  encode
    | none => .null
    | some a => encode a
  decode value := optional (some value)

instance {α : Type} [Payload α] : Payload (List α) where
  encode items := .array (items.map encode)
  decode
    | .array items => items.mapM decode
    | _ => none

instance : Payload Int64 where
  encode n := .ofInt n.toInt
  decode
    | .number n => do
      let i ← n.toInt?
      if Int64.minValue.toInt ≤ i ∧ i ≤ Int64.maxValue.toInt then some (.ofInt i) else none
    | _ => none

instance : Payload UInt32 where
  encode n := .ofInt n.toNat
  decode
    | .number n => do
      let i ← n.toInt?
      if 0 ≤ i ∧ i < UInt32.size then some (.ofNat i.toNat) else none
    | _ => none

instance : Payload Date where
  encode d := .string d.iso
  decode
    | .string s => Date.readSlack s
    | _ => none

/-- One of the named choices, written as its name; an object whose only member has that name and is
`null` also stands for it. -/
def decodeChoice {α : Type} (choices : List α) (name : α → String) : Json → Option α
  | .string s => choices.find? fun choice => name choice == s
  | .object [(s, .null)] => choices.find? fun choice => name choice == s
  | _ => none

instance : Payload Exchange where
  encode e := .string e.name
  decode := decodeChoice Exchange.all Exchange.name

instance : Payload Period where
  encode p := .string p.name
  decode := decodeChoice Period.all Period.name

instance : Payload Window where
  encode w := .object [("unit", encode w.unit), ("order", encode w.order)]
  decode value := do
    let [unit, order] ← value.fields ["unit", "order"] | none
    return ⟨← required unit, ← required order⟩

instance : Payload Filter where
  encode f := .object [("exchanges", encode f.exchanges), ("industries", encode f.industries)]
  decode value := do
    let [exchanges, industries] ← value.fields ["exchanges", "industries"] | none
    return ⟨← required exchanges, ← required industries⟩

instance : Payload SessionDates where
  encode s := .object [("latest_date", encode s.latest), ("last_five_date", encode s.lastFive),
    ("last_quarter_date", encode s.lastQuarter), ("first_year_date", encode s.firstYear),
    ("last_year_date", encode s.lastYear)]
  decode value := do
    let [latest, five, quarter, first, last] ← value.fields
      ["latest_date", "last_five_date", "last_quarter_date", "first_year_date", "last_year_date"]
      | none
    return ⟨← required latest, ← required five, ← required quarter, ← required first,
      ← required last⟩

instance : Payload RecentSessions where
  encode s := .object [("latest_date", encode s.latest), ("last_five_date", encode s.lastFive)]
  decode value := do
    let [latest, five] ← value.fields ["latest_date", "last_five_date"] | none
    return ⟨← required latest, ← required five⟩

/-- A member that is left out when its value is absent. -/
def present (name : String) : Option String → List (String × Json)
  | none => []
  | some s => [(name, .string s)]

instance : Payload ChangeRecord where
  encode r := .object ([("date", encode r.date), ("entity", encode r.entity)]
    ++ present "prior_date" r.priorDate ++ present "report" r.report
    ++ [("prior_value", encode r.priorValue), ("current_value", encode r.currentValue),
      ("percent_change", encode r.percentChange)])
  decode value := do
    let [date, entity, priorDate, report, prior, current, change] ← value.fields
      ["date", "entity", "prior_date", "report", "prior_value", "current_value", "percent_change"]
      | none
    return ⟨← required date, ← required entity, ← optional priorDate, ← optional report,
      ← optional prior, ← optional current, ← optional change⟩

instance : Payload TopMover where
  encode m := .object [("code", encode m.code), ("close_price", encode m.closePrice),
    ("roc_5", encode m.roc5)]
  decode value := do
    let [code, close, roc] ← value.fields ["code", "close_price", "roc_5"] | none
    return ⟨← required code, ← optional close, ← optional roc⟩

instance : Payload PricePerformance where
  encode p := .object [("code", encode p.code), ("per_five", encode p.perFive),
    ("per_quarter", encode p.perQuarter), ("per_ytd", encode p.perYtd),
    ("per_year", encode p.perYear)]
  decode value := do
    let [code, five, quarter, ytd, year] ← value.fields
      ["code", "per_five", "per_quarter", "per_ytd", "per_year"] | none
    return ⟨← required code, ← optional five, ← optional quarter, ← optional ytd, ← optional year⟩

instance : Payload LiquidityPerformance where
  encode p := .object [("code", encode p.code), ("per_quarter", encode p.perQuarter),
    ("per_year", encode p.perYear), ("per_four_year", encode p.perFourYear)]
  decode value := do
    let [code, quarter, year, fourYear] ← value.fields
      ["code", "per_quarter", "per_year", "per_four_year"] | none
    return ⟨← required code, ← optional quarter, ← optional year, ← optional fourYear⟩

instance : Payload IndustryPoint where
  encode p := .object [("date", encode p.date), ("industry", encode p.industry),
    ("color", encode p.color), ("per_change", encode p.perChange)]
  decode value := do
    let [date, industry, color, change] ← value.fields
      ["date", "industry", "color", "per_change"] | none
    return ⟨← required date, ← required industry, ← required color, ← optional change⟩

instance : Payload EquityPerformance where
  encode p := .object [("code", encode p.code), ("owner_equity", encode p.ownerEquity),
    ("share_premium", encode p.sharePremium),
    ("non_controlling_interests", encode p.nonControllingInterests),
    ("undistributed_earnings", encode p.undistributedEarnings)]
  decode value := do
    let [code, owner, premium, interests, earnings] ← value.fields
      ["code", "owner_equity", "share_premium", "non_controlling_interests",
        "undistributed_earnings"] | none
    return ⟨← required code, ← optional owner, ← optional premium, ← optional interests,
      ← optional earnings⟩

instance : Payload LiabilitiesPerformance where
  encode p := .object [("code", encode p.code), ("short_term_debt", encode p.shortTermDebt),
    ("long_term_debt", encode p.longTermDebt)]
  decode value := do
    let [code, short, long] ← value.fields ["code", "short_term_debt", "long_term_debt"] | none
    return ⟨← required code, ← optional short, ← optional long⟩

instance : Payload IndustryBreadth where
  encode b := .object [("industry", encode b.industry), ("color", encode b.color),
    ("increase", encode b.increase), ("decrease", encode b.decrease), ("equal", encode b.equal),
    ("high", encode b.high), ("low", encode b.low), ("day_change", encode b.dayChange),
    ("week_change", encode b.weekChange), ("month_change", encode b.monthChange)]
  decode value := do
    let [industry, color, increase, decrease, equal, high, low, day, week, month] ← value.fields
      ["industry", "color", "increase", "decrease", "equal", "high", "low", "day_change",
        "week_change", "month_change"] | none
    return ⟨← required industry, ← required color, ← required increase, ← required decrease,
      ← required equal, ← required high, ← required low, ← optional day, ← optional week,
      ← optional month⟩

end Payload

end Bourse
