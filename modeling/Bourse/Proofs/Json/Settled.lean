import Bourse.Proofs.Json.Payload

/-!
# Settled values

A number that is not finite is written as `null` and so comes back as an absent one: what is read
from a written value is the value with its numbers settled, and that is written as the value itself
was (`Settling`). A value whose numbers are all finite comes back as it was. This holds of every
kind of value that is cached or served, and of lists of them (`Kind.read_write_settled`).
-/

namespace Bourse

/-- Values with numbers in them, each of which may be absent. -/
class Numbered (α : Type) where
  numbers : α → List (Option Float)
  /-- The value with all its numbers replaced. -/
  mapNumbers : (Option Float → Option Float) → α → α

/-- Values in which no number could be absent. -/
@[reducible]
def Numbered.without {α : Type} : Numbered α where
  numbers _ := []
  mapNumbers _ a := a

namespace Payload

open Numbered

section Classes

variable {α : Type} [Payload α] [Numbered α]

/-- A value as it reads back: its numbers that are not finite are absent. -/
def settle (a : α) : α :=
  mapNumbers settled a

/-- No number of the value is infinite, and none is no number at all. -/
def AllFinite (a : α) : Prop :=
  ∀ x : Float, some x ∈ numbers a → x.isFinite

variable (α) in
/-- Every value is read back settled, and it is written as the settled one is. -/
class Settling : Prop where
  readable : ∀ a : α, (encode a).Readable
  reads : ∀ a : α, decode (encode a) = some (settle a)
  encode_settle : ∀ a : α, encode (settle a) = encode a
  settle_self : ∀ a : α, (∀ x ∈ numbers a, settled x = x) → settle a = a

theorem settled_self {x : Option Float} (h : ∀ y, x = some y → y.isFinite) : settled x = x := by
  cases x with
  | none => rfl
  | some y => rw [settled, Option.filter_some, if_pos (h y rfl)]

variable [Settling α]

instance : Faithful α where
  readable := Settling.readable
  reads a := ⟨settle a, Settling.reads a, Settling.encode_settle a⟩

theorem AllFinite.settle_eq {a : α} (h : AllFinite a) : settle a = a :=
  Settling.settle_self a fun _ hx => settled_self fun y hy => h y (hy ▸ hx)

theorem read_write_settle (a : α) : read (write a) = some (settle a) := by
  rw [read, write, Json.read_text (Settling.readable a), Option.bind_some, Settling.reads]

theorem write_settle (a : α) : write (settle a) = write a := by
  rw [write, Settling.encode_settle, write]

end Classes

/-! ## Values without numbers -/

theorem settling_of_exact {α : Type} [Payload α] [Exact α] [Numbered α]
    (h : ∀ a : α, settle a = a) : Settling α where
  readable := Exact.readable
  reads a := (Exact.reads_self a).trans (congrArg some (h a).symm)
  encode_settle a := congrArg encode (h a)
  settle_self a _ := h a

instance : Numbered Date := .without

instance : Numbered SessionDates := .without

instance : Numbered RecentSessions := .without

instance : Numbered Filter := .without

instance : Numbered Window := .without

instance : Settling Date := settling_of_exact fun _ => rfl

instance : Settling SessionDates := settling_of_exact fun _ => rfl

instance : Settling RecentSessions := settling_of_exact fun _ => rfl

instance : Settling Filter := settling_of_exact fun _ => rfl

instance : Settling Window := settling_of_exact fun _ => rfl

/-! ## Lists -/

section Lists

variable {α : Type} [Payload α] [Numbered α]

instance : Numbered (List α) where
  numbers items := items.flatMap numbers
  mapNumbers f items := items.map (mapNumbers f)

instance [Settling α] : Settling (List α) where
  readable items := readableItems_map Settling.readable items
  reads items := mapM_decode Settling.reads items
  encode_settle items := by
    refine congrArg Json.array ?_
    change (items.map settle).map encode = items.map encode
    rw [List.map_map]
    exact List.map_congr_left fun a _ => Settling.encode_settle a
  settle_self items h := by
    have hitems : ∀ a ∈ items, settle a = a := fun a ha =>
      Settling.settle_self a fun x hx => h x (List.mem_flatMap.2 ⟨a, ha, hx⟩)
    exact (List.map_congr_left hitems).trans (List.map_id items)

end Lists

/-! ## Records -/

theorem readable_present (name : String) (s : Option String) :
    Json.ReadableMembers (present name s) := by
  cases s with
  | none => trivial
  | some s => exact ⟨trivial, trivial⟩

theorem optional_text (s : Option String) : optional (s.map encode) = some s := by
  cases s <;> rfl

instance : Numbered ChangeRecord where
  numbers r := [r.priorValue, r.currentValue, r.percentChange]
  mapNumbers f r := { r with
    priorValue := f r.priorValue
    currentValue := f r.currentValue
    percentChange := f r.percentChange }

instance : Settling ChangeRecord where
  readable r := by
    refine Json.readableMembers_append.2 ⟨Json.readableMembers_append.2
      ⟨Json.readableMembers_append.2 ⟨⟨trivial, trivial, trivial⟩, ?_⟩, ?_⟩, ?_⟩
    · exact readable_present _ _
    · exact readable_present _ _
    · exact ⟨readable_float _, readable_float _, readable_float _, trivial⟩
  reads r := by
    have hfields : decode (encode r) = (do return ⟨← required (some (encode r.date)),
        ← required (some (encode r.entity)), ← optional (r.priorDate.map encode),
        ← optional (r.report.map encode), ← optional (some (encode r.priorValue)),
        ← optional (some (encode r.currentValue)),
        ← optional (some (encode r.percentChange))⟩ : Option ChangeRecord) := by
      rcases r with ⟨date, entity, _ | priorDate, _ | report, prior, current, change⟩ <;> rfl
    rw [hfields]
    simp only [required_self, optional_text, optional_float]
    rfl
  encode_settle r := by
    change Json.object ([("date", encode r.date), ("entity", encode r.entity)]
      ++ present "prior_date" r.priorDate ++ present "report" r.report
      ++ [("prior_value", encode (settled r.priorValue)),
        ("current_value", encode (settled r.currentValue)),
        ("percent_change", encode (settled r.percentChange))]) = _
    simp only [encode_settled]
    rfl
  settle_self r h := by
    cases r
    simp_all [settle, mapNumbers, numbers]

instance : Numbered PricePerformance where
  numbers p := [p.perFive, p.perQuarter, p.perYtd, p.perYear]
  mapNumbers f p := { p with
    perFive := f p.perFive
    perQuarter := f p.perQuarter
    perYtd := f p.perYtd
    perYear := f p.perYear }

instance : Settling PricePerformance where
  readable _ := ⟨trivial, readable_float _, readable_float _, readable_float _, readable_float _,
    trivial⟩
  reads p := by
    change (do return ⟨← required (some (encode p.code)), ← optional (some (encode p.perFive)),
      ← optional (some (encode p.perQuarter)), ← optional (some (encode p.perYtd)),
      ← optional (some (encode p.perYear))⟩ : Option PricePerformance) = _
    simp only [required_self, optional_float]
    rfl
  encode_settle p := by
    change Json.object [("code", encode p.code), ("per_five", encode (settled p.perFive)),
      ("per_quarter", encode (settled p.perQuarter)), ("per_ytd", encode (settled p.perYtd)),
      ("per_year", encode (settled p.perYear))] = _
    simp only [encode_settled]
    rfl
  settle_self p h := by
    cases p
    simp_all [settle, mapNumbers, numbers]

instance : Numbered LiquidityPerformance where
  numbers p := [p.perQuarter, p.perYear, p.perFourYear]
  mapNumbers f p := { p with
    perQuarter := f p.perQuarter
    perYear := f p.perYear
    perFourYear := f p.perFourYear }

instance : Settling LiquidityPerformance where
  readable _ := ⟨trivial, readable_float _, readable_float _, readable_float _, trivial⟩
  reads p := by
    change (do return ⟨← required (some (encode p.code)), ← optional (some (encode p.perQuarter)),
      ← optional (some (encode p.perYear)),
      ← optional (some (encode p.perFourYear))⟩ : Option LiquidityPerformance) = _
    simp only [required_self, optional_float]
    rfl
  encode_settle p := by
    change Json.object [("code", encode p.code), ("per_quarter", encode (settled p.perQuarter)),
      ("per_year", encode (settled p.perYear)),
      ("per_four_year", encode (settled p.perFourYear))] = _
    simp only [encode_settled]
    rfl
  settle_self p h := by
    cases p
    simp_all [settle, mapNumbers, numbers]

instance : Numbered EquityPerformance where
  numbers p := [p.ownerEquity, p.sharePremium, p.nonControllingInterests, p.undistributedEarnings]
  mapNumbers f p := { p with
    ownerEquity := f p.ownerEquity
    sharePremium := f p.sharePremium
    nonControllingInterests := f p.nonControllingInterests
    undistributedEarnings := f p.undistributedEarnings }

instance : Settling EquityPerformance where
  readable _ := ⟨trivial, readable_float _, readable_float _, readable_float _, readable_float _,
    trivial⟩
  reads p := by
    change (do return ⟨← required (some (encode p.code)), ← optional (some (encode p.ownerEquity)),
      ← optional (some (encode p.sharePremium)),
      ← optional (some (encode p.nonControllingInterests)),
      ← optional (some (encode p.undistributedEarnings))⟩ : Option EquityPerformance) = _
    simp only [required_self, optional_float]
    rfl
  encode_settle p := by
    change Json.object [("code", encode p.code), ("owner_equity", encode (settled p.ownerEquity)),
      ("share_premium", encode (settled p.sharePremium)),
      ("non_controlling_interests", encode (settled p.nonControllingInterests)),
      ("undistributed_earnings", encode (settled p.undistributedEarnings))] = _
    simp only [encode_settled]
    rfl
  settle_self p h := by
    cases p
    simp_all [settle, mapNumbers, numbers]

instance : Numbered LiabilitiesPerformance where
  numbers p := [p.shortTermDebt, p.longTermDebt]
  mapNumbers f p := { p with shortTermDebt := f p.shortTermDebt, longTermDebt := f p.longTermDebt }

instance : Settling LiabilitiesPerformance where
  readable _ := ⟨trivial, readable_float _, readable_float _, trivial⟩
  reads p := by
    change (do return ⟨← required (some (encode p.code)),
      ← optional (some (encode p.shortTermDebt)),
      ← optional (some (encode p.longTermDebt))⟩ : Option LiabilitiesPerformance) = _
    simp only [required_self, optional_float]
    rfl
  encode_settle p := by
    change Json.object [("code", encode p.code),
      ("short_term_debt", encode (settled p.shortTermDebt)),
      ("long_term_debt", encode (settled p.longTermDebt))] = _
    simp only [encode_settled]
    rfl
  settle_self p h := by
    cases p
    simp_all [settle, mapNumbers, numbers]

instance : Numbered TopMover where
  numbers m := [m.closePrice, m.roc5]
  mapNumbers f m := { m with closePrice := f m.closePrice, roc5 := f m.roc5 }

instance : Settling TopMover where
  readable _ := ⟨trivial, readable_float _, readable_float _, trivial⟩
  reads m := by
    change (do return ⟨← required (some (encode m.code)), ← optional (some (encode m.closePrice)),
      ← optional (some (encode m.roc5))⟩ : Option TopMover) = _
    simp only [required_self, optional_float]
    rfl
  encode_settle m := by
    change Json.object [("code", encode m.code), ("close_price", encode (settled m.closePrice)),
      ("roc_5", encode (settled m.roc5))] = _
    simp only [encode_settled]
    rfl
  settle_self m h := by
    cases m
    simp_all [settle, mapNumbers, numbers]

instance : Numbered IndustryPoint where
  numbers p := [p.perChange]
  mapNumbers f p := { p with perChange := f p.perChange }

instance : Settling IndustryPoint where
  readable _ := ⟨trivial, trivial, trivial, readable_float _, trivial⟩
  reads p := by
    change (do return ⟨← required (some (encode p.date)), ← required (some (encode p.industry)),
      ← required (some (encode p.color)),
      ← optional (some (encode p.perChange))⟩ : Option IndustryPoint) = _
    simp only [required_self, optional_float]
    rfl
  encode_settle p := by
    change Json.object [("date", encode p.date), ("industry", encode p.industry),
      ("color", encode p.color), ("per_change", encode (settled p.perChange))] = _
    simp only [encode_settled]
    rfl
  settle_self p h := by
    cases p
    simp_all [settle, mapNumbers, numbers]

instance : Numbered IndustryBreadth where
  numbers b := [b.dayChange, b.weekChange, b.monthChange]
  mapNumbers f b := { b with
    dayChange := f b.dayChange
    weekChange := f b.weekChange
    monthChange := f b.monthChange }

instance : Settling IndustryBreadth where
  readable _ := ⟨trivial, trivial, trivial, trivial, trivial, trivial, trivial, readable_float _,
    readable_float _, readable_float _, trivial⟩
  reads b := by
    change (do return ⟨← required (some (encode b.industry)), ← required (some (encode b.color)),
      ← required (some (encode b.increase)), ← required (some (encode b.decrease)),
      ← required (some (encode b.equal)), ← required (some (encode b.high)),
      ← required (some (encode b.low)), ← optional (some (encode b.dayChange)),
      ← optional (some (encode b.weekChange)),
      ← optional (some (encode b.monthChange))⟩ : Option IndustryBreadth) = _
    simp only [required_self, optional_float]
    rfl
  encode_settle b := by
    change Json.object [("industry", encode b.industry), ("color", encode b.color),
      ("increase", encode b.increase), ("decrease", encode b.decrease), ("equal", encode b.equal),
      ("high", encode b.high), ("low", encode b.low), ("day_change", encode (settled b.dayChange)),
      ("week_change", encode (settled b.weekChange)),
      ("month_change", encode (settled b.monthChange))] = _
    simp only [encode_settled]
    rfl
  settle_self b h := by
    cases b
    simp_all [settle, mapNumbers, numbers]

end Payload

/-! ## Kinds of values -/

/-- What is cached or served: dates, sessions, change records, results, and what a request asks for,
alone or in lists. -/
inductive Kind where
  | date
  | sessionDates
  | recentSessions
  | change
  | price
  | liquidity
  | equity
  | liabilities
  | mover
  | point
  | breadth
  | filter
  | window
  | list (items : Kind)

namespace Kind

open Numbered Payload

def Value : Kind → Type
  | date => Date
  | sessionDates => SessionDates
  | recentSessions => RecentSessions
  | change => ChangeRecord
  | price => PricePerformance
  | liquidity => LiquidityPerformance
  | equity => EquityPerformance
  | liabilities => LiabilitiesPerformance
  | mover => TopMover
  | point => IndustryPoint
  | breadth => IndustryBreadth
  | filter => Filter
  | window => Window
  | list items => List items.Value

instance payload : (k : Kind) → Payload k.Value
  | date => inferInstanceAs (Payload Date)
  | sessionDates => inferInstanceAs (Payload SessionDates)
  | recentSessions => inferInstanceAs (Payload RecentSessions)
  | change => inferInstanceAs (Payload ChangeRecord)
  | price => inferInstanceAs (Payload PricePerformance)
  | liquidity => inferInstanceAs (Payload LiquidityPerformance)
  | equity => inferInstanceAs (Payload EquityPerformance)
  | liabilities => inferInstanceAs (Payload LiabilitiesPerformance)
  | mover => inferInstanceAs (Payload TopMover)
  | point => inferInstanceAs (Payload IndustryPoint)
  | breadth => inferInstanceAs (Payload IndustryBreadth)
  | filter => inferInstanceAs (Payload Filter)
  | window => inferInstanceAs (Payload Window)
  | list items =>
    have := payload items
    inferInstanceAs (Payload (List items.Value))

instance numbered : (k : Kind) → Numbered k.Value
  | date => inferInstanceAs (Numbered Date)
  | sessionDates => inferInstanceAs (Numbered SessionDates)
  | recentSessions => inferInstanceAs (Numbered RecentSessions)
  | change => inferInstanceAs (Numbered ChangeRecord)
  | price => inferInstanceAs (Numbered PricePerformance)
  | liquidity => inferInstanceAs (Numbered LiquidityPerformance)
  | equity => inferInstanceAs (Numbered EquityPerformance)
  | liabilities => inferInstanceAs (Numbered LiabilitiesPerformance)
  | mover => inferInstanceAs (Numbered TopMover)
  | point => inferInstanceAs (Numbered IndustryPoint)
  | breadth => inferInstanceAs (Numbered IndustryBreadth)
  | filter => inferInstanceAs (Numbered Filter)
  | window => inferInstanceAs (Numbered Window)
  | list items =>
    have := numbered items
    inferInstanceAs (Numbered (List items.Value))

instance settling : (k : Kind) → Settling k.Value
  | date => inferInstanceAs (Settling Date)
  | sessionDates => inferInstanceAs (Settling SessionDates)
  | recentSessions => inferInstanceAs (Settling RecentSessions)
  | change => inferInstanceAs (Settling ChangeRecord)
  | price => inferInstanceAs (Settling PricePerformance)
  | liquidity => inferInstanceAs (Settling LiquidityPerformance)
  | equity => inferInstanceAs (Settling EquityPerformance)
  | liabilities => inferInstanceAs (Settling LiabilitiesPerformance)
  | mover => inferInstanceAs (Settling TopMover)
  | point => inferInstanceAs (Settling IndustryPoint)
  | breadth => inferInstanceAs (Settling IndustryBreadth)
  | filter => inferInstanceAs (Settling Filter)
  | window => inferInstanceAs (Settling Window)
  | list items =>
    have := settling items
    inferInstanceAs (Settling (List items.Value))

/-- What is read from a written value is the value with the numbers that are not finite left out,
which is the value itself when all are finite; and it is written as the value was. -/
theorem read_write_settled (k : Kind) (a : k.Value) :
    read (write a) = some (settle a) ∧ (AllFinite a → read (write a) = some a) ∧
      write (settle a) = write a := by
  refine ⟨read_write_settle a, fun hfinite => ?_, write_settle a⟩
  rw [read_write_settle, hfinite.settle_eq]

/-- Two change records, one of them with a report line of two lines. -/
def sampleRecords : List ChangeRecord :=
  [⟨"2024-01-05", "AAA", some "2023-12-29", none, some 8, some 10, some 25⟩,
    ⟨"2024Q1", "BBB", none, some "\"equity\"\n¹", none, some 3, none⟩]

theorem read_write_settled_sample :
    AllFinite sampleRecords ∧ read (write sampleRecords) = some sampleRecords := by
  have hfinite : AllFinite sampleRecords := by
    intro x hx
    have hall : ∀ y ∈ [8, 10, 25, (3 : Float)], y.isFinite := by decide
    exact hall x (by simpa [sampleRecords, numbers] using hx)
  exact ⟨hfinite, (read_write_settled (list change) sampleRecords).2.1 hfinite⟩

end Kind

end Bourse
