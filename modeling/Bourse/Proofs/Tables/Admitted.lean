import Mathlib.Data.String.Basic
import Bourse.Proofs.List.Descending
import Bourse.Tables

/-!
# What a filter lets through

All that a statement about the tickers of a filter takes from the tables is the tickers that the
filter admits, with the facts on them (`Tables.answer_admitted`). Sessions are those of a whole
table, and of these only the set of its dates matters. Tables that agree on both answer alike
(`Tables.SameFor.answer_eq`).
-/

namespace Bourse

/-- The filter whose tickers a statement is about; the sessions of a table are those of all. -/
def Statement.filter? : Statement → Option Filter
  | sessionAnchors _ _ | recentSessions _ | nearestSession _ _ => none
  | comparison current _ _ => some current.filter
  | series aggregate => some aggregate.filter
  | breadthCounts filter _ _ => some filter
  | closes filter _ => some filter

namespace Tables

variable (t : Tables) (f : Filter)

/-- The tables without the tickers that the filter does not admit, and without the facts on them. -/
def admitted : Tables where
  tickers := t.tickers.filter f.admits
  trades := t.trades.filter fun r => (t.admitted? f r.code).isSome
  ratios := t.ratios.filter fun r => (t.admitted? f r.code).isSome
  reports := t.reports.filter fun r => (t.admitted? f r.code).isSome

theorem admitted?_admitted (code : String) :
    (t.admitted f).admitted? f code = t.admitted? f code := by
  simp only [admitted?, admitted, List.find?_filter]
  congr
  funext ticker
  rw [Bool.eq_iff_iff, decide_eq_true_eq, Bool.and_eq_true, and_comm, and_assoc, and_self]

theorem facts_admitted (measure : Measure) :
    (t.admitted f).facts measure
      = (t.facts measure).filter fun fact => (t.admitted? f fact.code).isSome := by
  cases measure with
  | trade column => simp only [facts, admitted, List.filter_map, Function.comp_def]
  | ratio code | report lines =>
    simp only [facts, admitted, List.filter_map, List.filter_filter, Function.comp_def,
      Bool.and_comm]

/-- What gives nothing may be left out beforehand. -/
theorem filterMap_filter_of_none {α β : Type} {g : α → Option β} {p : α → Bool}
    (h : ∀ a, p a = false → g a = none) (items : List α) :
    (items.filter p).filterMap g = items.filterMap g := by
  rw [List.filterMap_filter]
  congr
  funext a
  cases hp : p a with
  | false => simp [h a hp]
  | true => simp

theorem joined_admitted (measure : Measure) (entity : Entity) (dates : List String) :
    (t.admitted f).joined ⟨measure, entity, f, dates⟩ = t.joined ⟨measure, entity, f, dates⟩ := by
  simp only [joined, admitted?_admitted, facts_admitted]
  rw [List.filter_comm]
  refine filterMap_filter_of_none (fun fact hfact => ?_) _
  rw [Option.isSome_eq_false_iff, Option.isNone_iff_eq_none] at hfact
  rw [hfact]
  rfl

theorem pairings_admitted (latest previous : String) :
    (t.admitted f).pairings f latest previous = t.pairings f latest previous := by
  simp only [pairings, admitted?_admitted]
  rw [admitted, List.filter_comm]
  dsimp only
  generalize t.trades.filter (·.date == latest) = current
  induction current with
  | nil => rfl
  | cons l current ih =>
    rw [List.filter_cons, List.flatMap_cons]
    cases hl : t.admitted? f l.code with
    | none => simpa using ih
    | some ticker =>
      -- the trades of the other side are of the same ticker
      have hsame : (t.trades.filter fun r => (t.admitted? f r.code).isSome).filter
          (fun p => p.code == l.code && p.date == previous)
          = t.trades.filter fun p => p.code == l.code && p.date == previous := by
        rw [List.filter_filter]
        refine List.filter_congr fun p _ => ?_
        by_cases hcode : p.code = l.code
        · simp [hcode, hl]
        · simp [hcode]
      simp only [Option.isSome_some, if_true, List.flatMap_cons, hsame, hl, ih]

theorem closeRows_admitted (dates : List String) :
    (t.admitted f).closeRows f dates = t.closeRows f dates := by
  simp only [closeRows, admitted?_admitted]
  rw [admitted, List.filter_comm]
  refine filterMap_filter_of_none (fun r hr => ?_) _
  rw [Option.isSome_eq_false_iff, Option.isNone_iff_eq_none] at hr
  rw [hr]
  rfl

theorem sums_admitted (measure : Measure) (entity : Entity) (dates : List String) :
    (t.admitted f).sums ⟨measure, entity, f, dates⟩ = t.sums ⟨measure, entity, f, dates⟩ := by
  unfold sums
  rw [joined_admitted]

/-- A statement about the tickers of a filter finds the same when there is nothing else. -/
theorem answer_admitted {s : Statement} (hs : s.filter? = some f) :
    (t.admitted f).answer s = t.answer s := by
  cases s with
  | sessionAnchors | recentSessions | nearestSession => cases hs
  | comparison current prior strict =>
    obtain ⟨measure, entity, filter, dates⟩ := current
    obtain rfl := Option.some.inj hs
    simp only [answer, comparisonRows, sums_admitted]
  | series aggregate =>
    obtain ⟨measure, entity, filter, dates⟩ := aggregate
    obtain rfl := Option.some.inj hs
    simp only [answer, sums_admitted]
  | breadthCounts filter latest previous =>
    obtain rfl := Option.some.inj hs
    simp only [answer, countRows, pairings_admitted]
  | closes filter dates =>
    obtain rfl := Option.some.inj hs
    exact closeRows_admitted t _ dates

/-- The tables hold the same, in the same order, of the tickers that the filter admits and of the
facts on them, and have the same session dates. -/
structure SameFor (f : Filter) (t t' : Tables) : Prop where
  admitted : t.admitted f = t'.admitted f
  dates : ∀ table date, date ∈ t.sessionDates table ↔ date ∈ t'.sessionDates table

variable {t f} {t' : Tables}

theorem SameFor.latestFirst (h : SameFor f t t') (table : SessionTable) :
    t.latestFirst table = t'.latestFirst table :=
  eraseReps_mergeSort_ge (h.dates table)

theorem SameFor.answer_eq (h : SameFor f t t') {s : Statement}
    (hs : s.filter? = none ∨ s.filter? = some f) : t.answer s = t'.answer s := by
  rcases hs with hs | hs
  · cases s with
    | sessionAnchors table targets =>
      simp only [answer, anchorRows, recentRows, lastOnOrBefore, firstOnOrAfter, h.latestFirst]
    | recentSessions table => simp only [answer, recentRows, h.latestFirst]
    | nearestSession table target =>
      simp only [answer, nearestRows, lastOnOrBefore, h.latestFirst]
    | comparison | series | breadthCounts | closes => cases hs
  · rw [← answer_admitted t f hs, h.admitted, answer_admitted t' f hs]

/-- The tables with another ticker and its trades. -/
def withTicker (t : Tables) (ticker : Ticker) (trades : List Trade) : Tables :=
  { t with
    tickers := ticker :: t.tickers
    trades := t.trades ++ trades.map fun r => { r with code := ticker.code } }

theorem admitted?_withTicker {ticker : Ticker} (h : f.admits ticker = false) (trades : List Trade) :
    (t.withTicker ticker trades).admitted? f = t.admitted? f := by
  funext code
  rw [admitted?, withTicker, List.find?_cons_of_neg (by simp [h]), ← admitted?]

/-- A ticker that the filter does not admit may be any, with any trades on the same dates. -/
theorem sameFor_withTicker {one other : Ticker} (hone : f.admits one = false)
    (hother : f.admits other = false) (hfree : t.admitted? f one.code = none)
    (hfree' : t.admitted? f other.code = none) {trades trades' : List Trade}
    (hdates : trades.map (·.date) = trades'.map (·.date)) :
    SameFor f (t.withTicker one trades) (t.withTicker other trades') := by
  have hleft : ∀ {ticker : Ticker} (rows : List Trade), f.admits ticker = false →
      t.admitted? f ticker.code = none → (t.withTicker ticker rows).admitted f = t.admitted f := by
    intro ticker rows hticker hnone
    simp only [admitted, admitted?_withTicker hticker]
    simp [withTicker, hticker, hnone]
  refine ⟨(hleft _ hone hfree).trans (hleft _ hother hfree').symm, fun table date => ?_⟩
  cases table with
  | ratios => rfl
  | trades =>
    have hmapped : (t.withTicker one trades).sessionDates .trades
        = (t.withTicker other trades').sessionDates .trades := by
      simpa [sessionDates, withTicker, Function.comp_def] using hdates
    rw [hmapped]

end Tables

end Bourse
