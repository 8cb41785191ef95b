import Mathlib.Data.List.Nodup
import Bourse.Proofs.Change.Percent
import Bourse.Proofs.List.Distinct

/-!
# Compared trades

A column of the trades summed by ticker has one sum for each trade of an admitted ticker
(`mem_sums`), since no ticker trades twice at one session. Compared with each other, the sums give
one record for each two such trades of one ticker (`mem_records`).
-/

namespace Bourse

theorem Tables.toFloat?_numberCell (value : Option Float) :
    (numberCell value).toFloat? = value := by
  cases value <;> rfl

theorem ChangeRecord.ofRow?_comparisonRow (current prior : Sum) :
    ofRow? (Tables.comparisonRow current prior)
      = some (.make current.date current.entity (some prior.date) current.line prior.value
          current.value) := by
  have hprior : (Tables.comparisonRow current prior).float? "prior_value" = prior.value := by
    rw [← Tables.toFloat?_numberCell prior.value, Tables.comparisonRow]
    cases current.line <;> rfl
  have hcurrent : (Tables.comparisonRow current prior).float? "current_value" = current.value := by
    rw [← Tables.toFloat?_numberCell current.value, Tables.comparisonRow]
    cases current.line <;> rfl
  have hreport : (Tables.comparisonRow current prior).text? "report" = current.line := by
    rw [Tables.comparisonRow]
    cases current.line <;> rfl
  rw [ofRow?, hprior, hcurrent, hreport]
  rfl

namespace Tables

variable (t : Tables) (f : Filter)

/-- The filter admits a ticker with the code: it has the exchange and the industry, and the ticker
is a stock or a fund. -/
def Admits (code : String) : Prop :=
  ∃ ticker ∈ t.tickers, ticker.code = code ∧ ticker.exchange ∈ f.exchanges.map Exchange.name ∧
    ticker.industry ∈ f.industries ∧ (ticker.securityType = "STOCK" ∨ ticker.securityType = "ETF")

theorem admits_iff (code : String) : t.Admits f code ↔
    ∃ ticker ∈ t.tickers, ticker.code = code ∧ f.admits ticker = true := by
  simp only [Admits, Filter.admits, Filter.securityTypes, Bool.and_eq_true, List.contains_iff_mem,
    List.mem_cons, List.not_mem_nil, or_false, and_assoc]

theorem isSome_admitted? (code : String) :
    (t.admitted? f code).isSome = true ↔ t.Admits f code := by
  rw [admitted?, List.find?_isSome, admits_iff]
  simp only [Bool.and_eq_true, beq_iff_eq]

section Sums

variable (column : String) (dates : List String)

/-- The trades at some dates whose tickers the filter admits. -/
def tradesOf : List Trade :=
  t.trades.filter fun r => dates.contains r.date && (t.admitted? f r.code).isSome

theorem mem_tradesOf {r : Trade} : r ∈ t.tradesOf f dates ↔
    r ∈ t.trades ∧ r.date ∈ dates ∧ t.Admits f r.code := by
  simp only [tradesOf, List.mem_filter, Bool.and_eq_true, List.contains_iff_mem, isSome_admitted?]

theorem joined_eq : t.joined ⟨.trade column, .ticker, f, dates⟩
    = (t.tradesOf f dates).map fun r => ⟨r.date, r.code, none, tradeValue column r⟩ := by
  have hcode : ∀ {code : String} {ticker : Ticker}, t.admitted? f code = some ticker →
      entityOf ticker .ticker = code := by
    intro code ticker hticker
    have hfound := List.find?_some hticker
    rw [Bool.and_eq_true, beq_iff_eq] at hfound
    exact hfound.1
  rw [joined, facts, tradesOf]
  induction t.trades with
  | nil => rfl
  | cons r trades ih =>
    rw [List.map_cons, List.filter_cons, List.filter_cons]
    cases dates.contains r.date with
    | false => exact ih
    | true =>
      cases hticker : t.admitted? f r.code with
      | none => simpa [hticker] using ih
      | some ticker => simpa [hticker, hcode hticker] using ih

theorem mem_sums (h : (t.trades.map fun r => (r.code, r.date)).Nodup) {s : Sum} :
    s ∈ t.sums ⟨.trade column, .ticker, f, dates⟩ ↔
      ∃ r ∈ t.tradesOf f dates, s = ⟨r.date, r.code, none, total [tradeValue column r]⟩ := by
  have hkeys : ((t.tradesOf f dates).map fun r =>
      (r.date, r.code, (none : Option String))).Nodup := by
    have hsub : ((t.tradesOf f dates).map fun r => (r.code, r.date)).Nodup :=
      h.sublist (List.filter_sublist.map _)
    have hswap : Function.Injective fun key : String × String =>
        (key.2, key.1, (none : Option String)) := by
      intro a b hab
      simpa [Prod.ext_iff, and_comm] using hab
    have hmap := List.Nodup.map hswap hsub
    rwa [List.map_map] at hmap
  have hsum : ∀ r ∈ t.tradesOf f dates,
      ((t.joined ⟨.trade column, .ticker, f, dates⟩).filter fun s =>
        (s.date, s.entity, s.line) = (r.date, r.code, none)).map (·.value)
          = [tradeValue column r] := by
    intro r hr
    rw [joined_eq, List.filter_map, List.map_map]
    exact congrArg _ (filter_key_eq hkeys hr)
  simp only [sums, List.mem_map, mem_eraseReps, List.mem_mergeSort, joined_eq]
  constructor
  · rintro ⟨key, ⟨s, ⟨r, hr, rfl⟩, rfl⟩, rfl⟩
    refine ⟨r, hr, ?_⟩
    rw [← hsum r hr, joined_eq]
  · rintro ⟨r, hr, rfl⟩
    refine ⟨_, ⟨_, ⟨r, hr, rfl⟩, rfl⟩, ?_⟩
    rw [← hsum r hr, joined_eq]

theorem comparable_iff (strict : Bool) (current prior : Sum) :
    comparable strict current prior = true ↔
      (if strict then prior.date < current.date else prior.date ≤ current.date) ∧
        current.entity = prior.entity ∧ current.line = prior.line := by
  cases strict <;> simp [comparable, and_assoc]

/-- Of two trades of one ticker the earlier one's value is compared with the later one's. -/
theorem mem_records (h : (t.trades.map fun r => (r.code, r.date)).Nodup) (prior : List String)
    (strict : Bool) {x : ChangeRecord} :
    x ∈ (t.comparisonRows ⟨.trade column, .ticker, f, dates⟩ prior strict).filterMap
        ChangeRecord.ofRow? ↔
      ∃ c ∈ t.tradesOf f dates, ∃ p ∈ t.tradesOf f prior, p.code = c.code ∧
        (if strict then p.date < c.date else p.date ≤ c.date) ∧
        x = .make c.date c.code (some p.date) none (total [tradeValue column p])
          (total [tradeValue column c]) := by
  simp only [comparisonRows, List.mem_filterMap, List.mem_flatMap, List.mem_map, List.mem_filter,
    mem_sums t f column _ h]
  constructor
  · rintro ⟨row, ⟨_, ⟨c, hc, rfl⟩, _, ⟨⟨p, hp, rfl⟩, hcomparable⟩, rfl⟩, hx⟩
    rw [ChangeRecord.ofRow?_comparisonRow] at hx
    obtain ⟨hdate, hcode, -⟩ := (comparable_iff ..).1 hcomparable
    exact ⟨c, hc, p, hp, hcode.symm, hdate, (Option.some.inj hx).symm⟩
  · rintro ⟨c, hc, p, hp, hcode, hdate, rfl⟩
    refine ⟨_, ⟨_, ⟨c, hc, rfl⟩, _, ⟨⟨p, hp, rfl⟩, ?_⟩, rfl⟩, ChangeRecord.ofRow?_comparisonRow _ _⟩
    exact (comparable_iff ..).2 ⟨hdate, hcode.symm, rfl⟩

end Sums

end Tables

end Bourse
