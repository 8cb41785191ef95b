import Bourse.Proofs.Change.Order
import Bourse.Proofs.Change.Pivot
import Bourse.Proofs.Desk.Anchors
import Bourse.Proofs.Desk.Calls
import Bourse.Proofs.Tables.Comparison
import Bourse.Proofs.Tables.Pairings

/-!
# Rankings against anchors

What the change of a ticker against an anchor is by the trades alone (`Tables.changeSince`), and
which tickers a ranking is made of (`AnchoredRanking`). The records of a comparison, pivoted by
anchor, hold just these changes (`slotValue_records`, `mem_entities_records`), so the rankings of
price and of traded value are the first fifty rows of such rankings (`rankings_anchored`).
-/

namespace Bourse

namespace Tables

variable (t : Tables)

/-- The trade of a ticker at a session. -/
def trade? (code : String) (session : Date) : Option Trade :=
  t.tradeAt? code session.iso

/-- The change of a ticker's value from an anchor to the latest session, none unless the ticker has
a trade at both and the anchor is earlier. -/
def changeSince (value : Trade → Option Float) (earlier : Date → Date → Prop) [DecidableRel earlier]
    (code : String) (latest anchor : Date) : Option Float :=
  match t.trade? code anchor, t.trade? code latest with
  | some prior, some current =>
    if earlier anchor latest then percentChange (value prior) (value current) else none
  | _, _ => none

variable {t}

theorem trade?_eq_some_iff (h : (t.trades.map fun r => (r.code, r.date)).Nodup) {code : String}
    {session : Date} {r : Trade} :
    t.trade? code session = some r ↔ r ∈ t.trades ∧ r.code = code ∧ r.date = session.iso :=
  tradeAt?_eq_some_iff h

end Tables

/-- The rows of a ranking: one for each ticker that the filter admits and that has a trade at the
latest session and at an earlier anchor, and each one ranked before the next. -/
structure AnchoredRanking (t : Tables) (f : Filter) (earlier : Date → Date → Prop) (latest : Date)
    (anchors : List Date) {α : Type} (row : String → α) (value : α → Option Float)
    (code : α → String) (ranking : List α) : Prop where
  ordered : ranking.Pairwise (RankedBefore value code)
  mem_iff : ∀ r, r ∈ ranking ↔ ∃ ticker, t.Admits f ticker ∧ (t.trade? ticker latest).isSome ∧
    (∃ anchor ∈ anchors, earlier anchor latest ∧ (t.trade? ticker anchor).isSome) ∧ r = row ticker

/-- A ranking of pivoted records ranks one row for each entity of the pivot. -/
theorem rankTop_pivot {slots : PivotSlots} {records : List ChangeRecord} {There : String → Prop}
    {changes : String → List (Option Float)}
    (hthere : ∀ entity, entity ∈ pivotEntities slots records ↔ There entity)
    (hchanges : ∀ entity, There entity →
      slots.labels.map (slotValue slots records entity) = changes entity)
    {α : Type} (row : PivotRow → α) (value : α → Option Float) (code : α → String)
    (hcode : ∀ r, code (row r) = r.entity) :
    ∃ ranking : List α,
      rankTop topCount value code ((pivot slots records).map row) = ranking.take 50 ∧
      ranking.Pairwise (RankedBefore value code) ∧
        ∀ r, r ∈ ranking ↔ ∃ entity, There entity ∧ r = row ⟨entity, changes entity⟩ := by
  have hrows : (pivot slots records).map row
      = (pivotEntities slots records).map fun entity => row ⟨entity, changes entity⟩ := by
    rw [pivot, List.map_map]
    refine List.map_congr_left fun entity hentity => ?_
    rw [Function.comp_apply, hchanges entity ((hthere entity).1 hentity)]
  rw [hrows]
  obtain ⟨ranking, htop, hordered, hmem⟩ := rankTop_map value topCount
    (fun entity => hcode ⟨entity, _⟩) (nodup_pivotEntities slots records)
  refine ⟨ranking, htop, hordered, fun r => ?_⟩
  simp only [hmem, hthere]

section Records

variable (t : Tables) (f : Filter) (column : String) (latest : Date) (anchors : List Date)
  (strict : Bool)

/-- The records of a ranking against some anchors, in order of rank. -/
def anchoredRecords : List ChangeRecord :=
  ChangeRecord.sortByRank <| (t.comparisonRows ⟨.trade column, .ticker, f, [latest.iso]⟩
    (anchors.map Date.iso) strict).filterMap ChangeRecord.ofRow?

variable {t f column latest anchors strict} {earlier : Date → Date → Prop}
  (h : (t.trades.map fun r => (r.code, r.date)).Nodup)
  (hearlier : ∀ anchor ∈ anchors,
    (if strict then anchor.iso < latest.iso else anchor.iso ≤ latest.iso) ↔ earlier anchor latest)

include h hearlier

/-- A record stands for a ticker's trades at an anchor and at the latest session. -/
theorem mem_anchoredRecords {x : ChangeRecord} :
    x ∈ anchoredRecords t f column latest anchors strict ↔
      ∃ code prior current, ∃ anchor ∈ anchors, t.Admits f code ∧
        t.trade? code anchor = some prior ∧ t.trade? code latest = some current ∧
        earlier anchor latest ∧
        x = .make latest.iso code (some anchor.iso) none
          (Tables.total [Tables.tradeValue column prior])
          (Tables.total [Tables.tradeValue column current]) := by
  rw [anchoredRecords, ChangeRecord.sortByRank, List.mem_mergeSort, Tables.mem_records _ _ _ _ h]
  simp only [Tables.mem_tradesOf, List.mem_singleton, List.mem_map, Tables.trade?_eq_some_iff h]
  constructor
  · rintro ⟨c, ⟨hc, hlatest, hadmits⟩, p, ⟨hp, ⟨anchor, hanchor, hiso⟩, -⟩, hcode, hdate, rfl⟩
    rw [← hiso, hlatest, hearlier anchor hanchor] at hdate
    exact ⟨c.code, p, c, anchor, hanchor, hadmits, ⟨hp, hcode, hiso.symm⟩, ⟨hc, rfl, hlatest⟩,
      hdate, by rw [hlatest, hiso]⟩
  · rintro ⟨_, p, c, anchor, hanchor, hadmits, ⟨hp, hcode, hiso⟩, ⟨hc, rfl, hlatest⟩, hdate, rfl⟩
    refine ⟨c, ⟨hc, hlatest, hadmits⟩, p, ⟨hp, ⟨anchor, hanchor, hiso.symm⟩, hcode ▸ hadmits⟩,
      hcode, ?_, by rw [hlatest, hiso]⟩
    rwa [hiso, hlatest, hearlier anchor hanchor]

/-- The slot of an anchor holds the change since it. -/
theorem slotValue_records [DecidableRel earlier]
    (hyear : ∀ anchor ∈ anchors, 0 ≤ anchor.year ∧ anchor.year ≤ 9999) {code : String}
    (hadmits : t.Admits f code) {anchor : Date} (hanchor : anchor ∈ anchors) :
    slotValue (.byDate (anchors.map Date.iso)) (anchoredRecords t f column latest anchors strict)
        code anchor.iso
      = t.changeSince (Tables.tradeValue column) earlier code latest anchor := by
  refine slotValue_eq ?_ ?_
  · rintro r hr rfl haccepts
    obtain ⟨code, p, c, other, hother, -, hp, hc, hlt, rfl⟩ :=
      (mem_anchoredRecords h hearlier).1 hr
    have hiso : other.iso = anchor.iso := Option.some.inj (beq_iff_eq.1 haccepts)
    obtain rfl : other = anchor := Option.some.inj <| by
      rw [← Date.readStart_iso other (hyear other hother), hiso,
        Date.readStart_iso anchor (hyear anchor hanchor)]
    change percentChange _ _ = Tables.changeSince t _ earlier code latest other
    rw [Tables.changeSince, hp, hc, percentChange_total]
    exact (if_pos hlt).symm
  · intro hnone
    unfold Tables.changeSince
    split
    · next p c hp hc =>
      split_ifs with hlt
      · have hno := hnone _ ((mem_anchoredRecords h hearlier).2
          ⟨code, p, c, anchor, hanchor, hadmits, hp, hc, hlt, rfl⟩) rfl
        rw [PivotSlots.accepts] at hno
        exact absurd (beq_self_eq_true (some anchor.iso)) (hno ▸ Bool.false_ne_true)
      · rfl
    · rfl

/-- The rows of the pivot are those of the tickers with a trade at the latest session and at an
earlier anchor. -/
theorem mem_entities_records {code : String} :
    code ∈ pivotEntities (.byDate (anchors.map Date.iso))
        (anchoredRecords t f column latest anchors strict) ↔
      t.Admits f code ∧ (t.trade? code latest).isSome ∧
        ∃ anchor ∈ anchors, earlier anchor latest ∧ (t.trade? code anchor).isSome := by
  rw [mem_pivotEntities]
  constructor
  · rintro ⟨r, hr, -, rfl⟩
    obtain ⟨code, p, c, anchor, hanchor, hadmits, hp, hc, hlt, rfl⟩ :=
      (mem_anchoredRecords h hearlier).1 hr
    exact ⟨hadmits, Option.isSome_of_eq_some hc, anchor, hanchor, hlt, Option.isSome_of_eq_some hp⟩
  · rintro ⟨hadmits, hc, anchor, hanchor, hlt, hp⟩
    obtain ⟨c, hc⟩ := Option.isSome_iff_exists.1 hc
    obtain ⟨p, hp⟩ := Option.isSome_iff_exists.1 hp
    refine ⟨_, (mem_anchoredRecords h hearlier).2
      ⟨code, p, c, anchor, hanchor, hadmits, hp, hc, hlt, rfl⟩, ?_, rfl⟩
    rw [PivotSlots.acceptsAny, List.any_eq_true]
    exact ⟨anchor.iso, List.mem_map_of_mem hanchor, beq_self_eq_true _⟩

/-- A ranking of pivoted records ranks the rows of the changes since the anchors. -/
theorem rankTop_records [DecidableRel earlier]
    (hyear : ∀ anchor ∈ anchors, 0 ≤ anchor.year ∧ anchor.year ≤ 9999) {α : Type}
    (row : PivotRow → α) (value : α → Option Float) (code : α → String)
    (hcode : ∀ r, code (row r) = r.entity) :
    ∃ ranking, rankTop topCount value code ((pivot (.byDate (anchors.map Date.iso))
        (anchoredRecords t f column latest anchors strict)).map row) = ranking.take 50 ∧
      AnchoredRanking t f earlier latest anchors
        (fun ticker => row ⟨ticker, anchors.map
          (t.changeSince (Tables.tradeValue column) earlier ticker latest)⟩)
        value code ranking := by
  have hchanges : ∀ {ticker}, t.Admits f ticker → (PivotSlots.byDate (anchors.map
      Date.iso)).labels.map (slotValue (.byDate (anchors.map Date.iso))
        (anchoredRecords t f column latest anchors strict) ticker)
          = anchors.map (t.changeSince (Tables.tradeValue column) earlier ticker latest) := by
    intro ticker hadmits
    rw [PivotSlots.labels, List.map_map]
    exact List.map_congr_left fun anchor hanchor =>
      slotValue_records h hearlier hyear hadmits hanchor
  obtain ⟨ranking, htop, hordered, hmem⟩ :=
    rankTop_pivot (fun _ => mem_entities_records h hearlier) (fun _ hthere => hchanges hthere.1)
      row value code hcode
  refine ⟨ranking, htop, hordered, fun r => ?_⟩
  simp only [hmem, and_assoc]

end Records

namespace Tables

variable (t : Tables)

/-- The changes of a ticker's closing price since the named sessions. -/
def pricePerformance (s : SessionDates) (ticker : String) : PricePerformance :=
  let change := t.changeSince (·.close) (· < ·) ticker s.latest
  ⟨ticker, change s.lastFive, change s.lastQuarter, change s.firstYear, change s.lastYear⟩

/-- The changes of a ticker's traded value since the quarter anchors. -/
def liquidityPerformance (s : QuarterSessions) (ticker : String) : LiquidityPerformance :=
  let change := t.changeSince (·.total) (· ≤ ·) ticker s.latest
  ⟨ticker, change s.quarter, change s.year, change s.fourYears⟩

end Tables

namespace Desk

open Analysis

variable (desk : Desk) {t : Tables} (f : Filter)

theorem plain_pivoted {metric : Metric} {column : String} {latest : Date} {anchors : List Date}
    {strict : Bool} (hmeasure : metric.measure = .trade column) (hentity : metric.entity = .ticker)
    (hplan : plain t (desk.plan metric none)
      = .ok (.compare [latest.iso] (anchors.map Date.iso) strict)) :
    plain t (desk.pivoted metric f none) = .ok (pivot (.byDate (anchors.map Date.iso))
      (anchoredRecords t f column latest anchors strict)) := by
  have hexecute : plain t (execute metric f (.compare [latest.iso] (anchors.map Date.iso) strict))
      = .ok (anchoredRecords t f column latest anchors strict) := by
    have hpoint : metric.isPointInTime = true := decide_eq_true hentity
    rw [anchoredRecords, ← hmeasure, ← hentity]
    exact congrArg Except.ok (if_pos hpoint)
  rw [pivoted, plain_bind, hplan]
  change plain t (execute metric f _ >>= _) = _
  rw [plain_bind, hexecute]
  rfl

/-- Over an empty cache what is kept under a key is computed. -/
theorem run_kept {α : Type} [Payload α] {computation : Analysis α}
    (h : Transparent t (desk.truth t) Eq computation) (key : String) (ttl : Option ℕ)
    (delay : Backend → ℕ) (purgeEvery now : ℕ) :
    ((desk.gateway.getOrComputeFor key ttl computation).run.run (Backend.timed delay)
      (emptyBackend t purgeEvery now)).1 = plain t computation :=
  run_getOrComputeFor delay h (sound_emptyBackend ..) fun _ he => absurd he List.not_mem_nil

/-- Over an empty cache a ranking is that of the rows of its pivot. -/
theorem run_ranked {metric : Metric} {lines : Option (List String)} {rows : List PivotRow}
    (hrows : plain t (desk.pivoted metric f lines) = .ok rows) {α : Type} [Payload α] (key : String)
    (rank : List PivotRow → List α) (delay : Backend → ℕ) (purgeEvery now : ℕ) :
    ((desk.gateway.getOrCompute key (do
        let rows ← desk.pivoted metric f lines
        return rank rows)).run.run (Backend.timed delay) (emptyBackend t purgeEvery now)).1
      = .ok (rank rows) := by
  have hcomputation : Transparent t (desk.truth t) Eq (do
      let rows ← desk.pivoted metric f lines
      return rank rows) :=
    (desk.transparent_pivoted t metric f lines).bind fun _ => transparent_pure _
  rw [Gateway.getOrCompute, desk.run_kept hcomputation, plain_bind, hrows]
  rfl

variable (hkeys : (t.trades.map fun r => (r.code, r.date)).Nodup)

include hkeys

/-- Over an empty cache a ranking of a column of the trades ranks the changes since the anchors of
its plan. -/
theorem run_ranking {metric : Metric} {column : String} {measured : Trade → Option Float}
    (hmeasure : metric.measure = .trade column) (hentity : metric.entity = .ticker)
    (hmeasured : Tables.tradeValue column = measured) {latest : Date} {anchors : List Date}
    {strict : Bool} (hplan : plain t (desk.plan metric none)
      = .ok (.compare [latest.iso] (anchors.map Date.iso) strict))
    {earlier : Date → Date → Prop} [DecidableRel earlier]
    (hearlier : ∀ anchor ∈ anchors,
      (if strict then anchor.iso < latest.iso else anchor.iso ≤ latest.iso) ↔
        earlier anchor latest)
    (hyear : ∀ anchor ∈ anchors, 0 ≤ anchor.year ∧ anchor.year ≤ 9999)
    {α : Type} [Payload α] (row : PivotRow → α) (value : α → Option Float) (code : α → String)
    (hcode : ∀ r, code (row r) = r.entity) (key : String) (delay : Backend → ℕ)
    (purgeEvery now : ℕ) :
    ∃ ranking, ((desk.gateway.getOrCompute key (do
          let rows ← desk.pivoted metric f none
          return rankTop topCount value code (rows.map row))).run.run (Backend.timed delay)
            (emptyBackend t purgeEvery now)).1 = .ok (ranking.take 50) ∧
      AnchoredRanking t f earlier latest anchors
        (fun ticker => row ⟨ticker, anchors.map (t.changeSince measured earlier ticker latest)⟩)
        value code ranking := by
  subst hmeasured
  obtain ⟨ranking, htop, hranking⟩ := rankTop_records hkeys hearlier hyear row value code hcode
  refine ⟨ranking, ?_, hranking⟩
  rw [← htop]
  exact run_ranked desk f (plain_pivoted desk f hmeasure hentity hplan) key
    (fun rows => rankTop topCount value code (rows.map row)) delay purgeEvery now

variable {S : Finset Date} (h : t.Dated .trades S)

include h

theorem priceChange_anchored (htoday : 1 ≤ desk.today.year ∧ desk.today.year ≤ 9999)
    {s : SessionDates} (hs : s.Of S desk.today) (delay : Backend → ℕ) (purgeEvery now : ℕ) :
    ∃ ranking, ((desk.priceChange f).run.run (Backend.timed delay)
        (emptyBackend t purgeEvery now)).1 = .ok (ranking.take 50) ∧
      AnchoredRanking t f (· < ·) s.latest [s.lastFive, s.lastQuarter, s.firstYear, s.lastYear]
        (t.pricePerformance s) (·.perFive) (·.code) ranking := by
  have hyear : ∀ anchor ∈ [s.lastFive, s.lastQuarter, s.firstYear, s.lastYear],
      0 ≤ anchor.year ∧ anchor.year ≤ 9999 := by
    simp only [List.forall_mem_cons, List.not_mem_nil, false_imp_iff, implies_true, and_true]
    exact ⟨h.year_mem _ hs.lastFive.1, h.year_mem _ hs.lastQuarter.1.1,
      h.year_mem _ hs.firstYear.1.1, h.year_mem _ hs.lastYear.1.1⟩
  have hclose : Tables.tradeValue "close_price" = (·.close) := funext fun _ => if_pos rfl
  have hplan := plain_plan_priceChange desk h htoday hs
  have hearlier : ∀ anchor ∈ [s.lastFive, s.lastQuarter, s.firstYear, s.lastYear],
      (if true then anchor.iso < s.latest.iso else anchor.iso ≤ s.latest.iso) ↔
        anchor < s.latest := fun anchor hanchor =>
    Date.iso_lt_iso_iff (hyear anchor hanchor) (h.year_mem _ hs.latest.1)
  obtain ⟨ranking, hrun, hranking⟩ := run_ranking desk f hkeys rfl rfl hclose hplan hearlier hyear
    (fun r => (⟨r.entity, r.slot 0, r.slot 1, r.slot 2, r.slot 3⟩ : PricePerformance)) (·.perFive)
    (·.code) (fun _ => rfl) (Topic.ranking .priceChange f).key.text delay purgeEvery now
  exact ⟨ranking, hrun, hranking⟩

theorem liquidityChange_anchored (htoday : 10 ≤ desk.today.year ∧ desk.today.year ≤ 9999)
    {s : QuarterSessions} (hs : s.Of S desk.today) (delay : Backend → ℕ) (purgeEvery now : ℕ) :
    ∃ ranking, ((desk.liquidityChange f).run.run (Backend.timed delay)
        (emptyBackend t purgeEvery now)).1 = .ok (ranking.take 50) ∧
      AnchoredRanking t f (· ≤ ·) s.latest [s.quarter, s.year, s.fourYears]
        (t.liquidityPerformance s) (·.perQuarter) (·.code) ranking := by
  have hyear : ∀ anchor ∈ [s.quarter, s.year, s.fourYears],
      0 ≤ anchor.year ∧ anchor.year ≤ 9999 := by
    simp only [List.forall_mem_cons, List.not_mem_nil, false_imp_iff, implies_true, and_true]
    exact ⟨h.year_mem _ hs.quarter.1.1, h.year_mem _ hs.year.1.1, h.year_mem _ hs.fourYears.1.1⟩
  have htotal : Tables.tradeValue "total_val" = (·.total) :=
    funext fun _ => (if_neg (by decide)).trans (if_pos rfl)
  have hplan := plain_plan_liquidityChange desk h htoday hs
  have hearlier : ∀ anchor ∈ [s.quarter, s.year, s.fourYears],
      (if false then anchor.iso < s.latest.iso else anchor.iso ≤ s.latest.iso) ↔
        anchor ≤ s.latest := fun anchor hanchor =>
    Date.iso_le_iso_iff (hyear anchor hanchor) (h.year_mem _ hs.latest.1.1)
  obtain ⟨ranking, hrun, hranking⟩ := run_ranking desk f hkeys rfl rfl htotal hplan hearlier hyear
    (fun r => (⟨r.entity, r.slot 0, r.slot 1, r.slot 2⟩ : LiquidityPerformance)) (·.perQuarter)
    (·.code) (fun _ => rfl) (Topic.ranking .liquidityChange f).key.text delay purgeEvery now
  exact ⟨ranking, hrun, hranking⟩

omit h hkeys in
/-- The rankings of price and of traded value are the first fifty rows of the changes since their
anchors, one for each ticker that traded at the latest session and at an earlier anchor. -/
theorem rankings_anchored (h : t.Dated .trades S)
    (hkeys : (t.trades.map fun r => (r.code, r.date)).Nodup)
    (htoday : 10 ≤ desk.today.year ∧ desk.today.year ≤ 9999) (delay : Backend → ℕ)
    (purgeEvery now : ℕ) :
    (∀ s : SessionDates, s.Of S desk.today →
      ∃ ranking, ((desk.priceChange f).run.run (Backend.timed delay)
          (emptyBackend t purgeEvery now)).1 = .ok (ranking.take 50) ∧
        AnchoredRanking t f (· < ·) s.latest [s.lastFive, s.lastQuarter, s.firstYear, s.lastYear]
          (t.pricePerformance s) (·.perFive) (·.code) ranking) ∧
    ∀ s : QuarterSessions, s.Of S desk.today →
      ∃ ranking, ((desk.liquidityChange f).run.run (Backend.timed delay)
          (emptyBackend t purgeEvery now)).1 = .ok (ranking.take 50) ∧
        AnchoredRanking t f (· ≤ ·) s.latest [s.quarter, s.year, s.fourYears]
          (t.liquidityPerformance s) (·.perQuarter) (·.code) ranking :=
  ⟨fun _ hs => priceChange_anchored desk f hkeys h ⟨by omega, htoday.2⟩ hs delay purgeEvery now,
    fun _ hs => liquidityChange_anchored desk f hkeys h htoday hs delay purgeEvery now⟩

end Desk

/-- Trades of three tickers: one at every session, one without most anchors, and one that no filter
on its exchange admits. -/
def anchorTrades : List (String × Date × Option Float) :=
  [("AAA", 2020, 1, 6, some 8), ("AAA", 2022, 12, 30, some 0), ("AAA", 2023, 12, 28, some 10),
    ("AAA", 2023, 12, 29, some 11), ("AAA", 2024, 1, 2, none), ("AAA", 2024, 1, 4, some 12),
    ("AAA", 2024, 1, 5, some 9), ("BBB", 2023, 12, 28, some 20), ("BBB", 2024, 1, 5, some 30),
    ("CCC", 2023, 12, 29, some 1), ("CCC", 2024, 1, 5, some 2)].map
      fun (code, year, month, day, value) =>
        (code, (Date.of? year month day).getD default, value)

def anchorTables : Tables where
  tickers := [⟨"AAA", "HOSE", "STOCK", "Banks"⟩, ⟨"BBB", "HOSE", "ETF", "Banks"⟩,
    ⟨"CCC", "HNX", "STOCK", "Banks"⟩]
  trades := anchorTrades.map fun (code, d, value) => ⟨code, d.iso, value, value, none, none⟩
  ratios := []
  reports := []

def anchorDates : Finset Date :=
  (anchorTrades.map (·.2.1)).toFinset

/-- The day with a given year, month and day. -/
def sampleDay (year : ℤ) (month day : ℕ) : Date :=
  (Date.of? year month day).getD default

theorem anchorTables_dated : anchorTables.Dated .trades anchorDates :=
  Tables.dated_toFinset (by rw [List.map_map]; rfl) (by decide)

theorem isGreatest_iff {S : Finset Date} {p : Date → Prop} {d : Date} :
    IsGreatest {e | e ∈ S ∧ p e} d ↔ (d ∈ S ∧ p d) ∧ ∀ e ∈ S, p e → e ≤ d :=
  ⟨fun h => ⟨h.1, fun _ he hp => h.2 ⟨he, hp⟩⟩, fun h => ⟨h.1, fun _ he => h.2 _ he.1 he.2⟩⟩

theorem isLeast_iff {S : Finset Date} {p : Date → Prop} {d : Date} :
    IsLeast {e | e ∈ S ∧ p e} d ↔ (d ∈ S ∧ p d) ∧ ∀ e ∈ S, p e → d ≤ e :=
  ⟨fun h => ⟨h.1, fun _ he hp => h.2 ⟨he, hp⟩⟩, fun h => ⟨h.1, fun _ he => h.2 _ he.1 he.2⟩⟩

/-- The fifth latest session is also the first one of the last twelve months. -/
def anchorSessions : SessionDates :=
  ⟨sampleDay 2024 1 5, sampleDay 2023 12 28, sampleDay 2023 12 29, sampleDay 2024 1 2,
    sampleDay 2023 12 28⟩

theorem anchorSessions_of : anchorSessions.Of anchorDates (sampleDay 2024 1 7) where
  latest := ⟨by decide, (by decide : ∀ d ∈ anchorDates, d ≤ anchorSessions.latest)⟩
  lastFive := by decide
  lastQuarter := isGreatest_iff.2 (by decide)
  firstYear := isLeast_iff.2 (by decide)
  lastYear := isLeast_iff.2 (by decide)

def anchorQuarters : QuarterSessions :=
  ⟨sampleDay 2024 1 5, sampleDay 2023 12 29, sampleDay 2022 12 30, sampleDay 2020 1 6⟩

theorem anchorQuarters_of : anchorQuarters.Of anchorDates (sampleDay 2024 1 7) where
  latest := isGreatest_iff.2 (by decide)
  quarter := isGreatest_iff.2 (by decide)
  year := isGreatest_iff.2 (by decide)
  fourYears := isGreatest_iff.2 (by decide)

def anchorDesk : Desk where
  gateway := ⟨.singleFlight, some 2, 2000⟩
  today := sampleDay 2024 1 7
  sessionTtl := some 1

def banksOnHose : Filter :=
  ⟨[.hose], ["Banks"]⟩

theorem rankings_anchored_sample :
    anchorTables.Dated .trades anchorDates ∧
      (anchorTables.trades.map fun r => (r.code, r.date)).Nodup ∧
      (10 ≤ anchorDesk.today.year ∧ anchorDesk.today.year ≤ 9999) ∧
      anchorSessions.Of anchorDates anchorDesk.today ∧
      anchorQuarters.Of anchorDates anchorDesk.today ∧
      (∃ ranking, ((anchorDesk.priceChange banksOnHose).run.run (Backend.timed fun _ => 700)
          (Desk.emptyBackend anchorTables 3 0)).1 = .ok (ranking.take 50) ∧
        AnchoredRanking anchorTables banksOnHose (· < ·) anchorSessions.latest
          [anchorSessions.lastFive, anchorSessions.lastQuarter, anchorSessions.firstYear,
            anchorSessions.lastYear]
          (anchorTables.pricePerformance anchorSessions) (·.perFive) (·.code) ranking) ∧
      ∃ ranking, ((anchorDesk.liquidityChange banksOnHose).run.run (Backend.timed fun _ => 700)
          (Desk.emptyBackend anchorTables 3 0)).1 = .ok (ranking.take 50) ∧
        AnchoredRanking anchorTables banksOnHose (· ≤ ·) anchorQuarters.latest
          [anchorQuarters.quarter, anchorQuarters.year, anchorQuarters.fourYears]
          (anchorTables.liquidityPerformance anchorQuarters) (·.perQuarter) (·.code) ranking := by
  have hkeys : (anchorTables.trades.map fun r => (r.code, r.date)).Nodup := by decide
  have htoday : 10 ≤ anchorDesk.today.year ∧ anchorDesk.today.year ≤ 9999 := by decide
  obtain ⟨hprice, hliquidity⟩ := Desk.rankings_anchored anchorDesk banksOnHose anchorTables_dated
    hkeys htoday (fun _ => 700) 3 0
  exact ⟨anchorTables_dated, hkeys, htoday, anchorSessions_of, anchorQuarters_of,
    hprice _ anchorSessions_of, hliquidity _ anchorQuarters_of⟩

end Bourse
