import Bourse.Proofs.Desk.Breadth
import Bourse.Proofs.Desk.Calls

/-!
# Answers from rows in any order

The answers of a desk do not depend on the order that the rows of its statements come in
(`orderFree_answers`): a ranking or a series is the same list, and breadth has the same industries
and counts, and means over the same changes. Change records by themselves are the same list for the
metrics with a window only. For the others they are the same records (`agrees_computeChange`), and
those of one change, entity and date change places with the rows (`computeChange_reversed`).
-/

namespace Bourse

variable {α : Type}

/-- Outcomes that agree with a third one agree with each other. -/
theorem Agrees.of_common {same same' : α → α → Prop} {x y z : Except Fault α}
    (hx : Agrees same x z) (hy : Agrees same y z)
    (h : ∀ {a b c}, same a c → same b c → same' a b) : Agrees same' x y := by
  cases hx with
  | error e =>
    cases hy
    exact .error e
  | ok ha =>
    cases hy with
    | ok hb => exact .ok (h ha hb)

/-- Every statement's rows come from the last to the first. -/
def Conditions.reversed : Conditions where
  delay _ := 0
  lookup _ _ := .served
  write _ _ := .served
  fault? _ _ := none
  order _ _ rows := rows.reverse
  order_perm _ _ := List.reverse_perm

theorem Conditions.faultless_reversed : Conditions.reversed.Faultless :=
  ⟨fun _ _ => rfl, fun _ _ => rfl, fun _ _ => rfl⟩

namespace Desk

open Analysis

section Answers

variable (desk : Desk) (t : Tables)

/-- Unless something fails the analysis gives the same for our purposes whatever order rows come in,
and however the clock moves. Its backends may have kept anything true but under the key of the
topic. -/
def OrderFree (topic : Topic) (same : α → α → Prop) (a : Analysis α) : Prop :=
  ∀ c c' : Conditions, c.Faultless → c'.Faultless → ∀ b b' : Backend,
    b.Sound t (desk.truth t) → b.cache.Cold b.now topic.key.text →
    b'.Sound t (desk.truth t) → b'.cache.Cold b'.now topic.key.text →
      Agrees same (a.run.run (Backend.under c) b).1 (a.run.run (Backend.under c') b').1

variable {desk t} [Payload α] {topic : Topic} {ttl : Option ℕ} {computation : Analysis α}

theorem orderFree_kept {same : α → α → Prop} (same' : α → α → Prop)
    (h : ∀ c, Steady c t (desk.truth t) same' computation)
    (hcommon : ∀ {x y z}, same' x z → same' y z → same x y) :
    desk.OrderFree t topic same
      (desk.gateway.getOrComputeFor topic.key.text ttl computation) := by
  have hagrees : ∀ {c : Conditions}, c.Faultless → ∀ {b : Backend}, b.Sound t (desk.truth t) →
      b.cache.Cold b.now topic.key.text →
      Agrees same' ((desk.gateway.getOrComputeFor topic.key.text ttl computation).run.run
        (Backend.under c) b).1 (plain t computation) :=
    fun hc _ hb hcold => (allows_getOrComputeFor (h _) (.inl hcold) hb).1.agrees hc
  intro c c' hc hc' b b' hb hcold hb' hcold'
  exact (hagrees hc hb hcold).of_common (hagrees hc' hb' hcold') hcommon

theorem orderFree_eq (h : ∀ c, Steady c t (desk.truth t) Eq computation) :
    desk.OrderFree t topic Eq (desk.gateway.getOrComputeFor topic.key.text ttl computation) :=
  orderFree_kept Eq h fun hx hy => hx.trans hy.symm

end Answers

/-- The breadth of one market: the same industries with the same counts, and with means over the
same changes since the same sessions. -/
def SameMarketBreadth (desk : Desk) (t : Tables) (f : Filter) (l l' : List IndustryBreadth) :
    Prop :=
  ∃ s, desk.breadthSessions.plain t = .ok s ∧
    List.Forall₂ (IndustryBreadth.SameBreadth t f s) l l'

variable (desk : Desk) (t : Tables) (f : Filter)

theorem orderFree_marketBreadth (htrades : (t.trades.map fun r => (r.code, r.date)).Nodup)
    (hcodes : (t.tickers.map (·.code)).Nodup) :
    desk.OrderFree t (.breadth f) (desk.SameMarketBreadth t f) (desk.marketBreadth f) := by
  refine orderFree_kept (desk.SameMarketBreadth t f) (fun c => ?_) ?_
  · refine steady_breadth desk t f List.Perm (fun b statement => c.order_perm ..) ?_
    exact fun s hs counts closes hcounts hcloses =>
      ⟨s, hs, IndustryBreadth.forall₂_breadth htrades hcodes hcounts hcloses⟩
  · rintro x y z ⟨s, hs, hx⟩ ⟨s', hs', hy⟩
    obtain rfl := Except.ok.inj (hs.symm.trans hs')
    exact ⟨s, hs, IndustryBreadth.forall₂_of_common hx hy⟩

/-- Rankings and series do not depend on the order of rows. Nor does breadth, but for the order that
the changes of an industry's tickers are averaged in. -/
theorem orderFree_answers :
    desk.OrderFree t (.ranking .priceChange f) Eq (desk.priceChange f) ∧
      desk.OrderFree t (.ranking .liquidityChange f) Eq (desk.liquidityChange f) ∧
      desk.OrderFree t (.ranking .equityChange f) Eq (desk.equityChange f) ∧
      desk.OrderFree t (.ranking .liabilitiesChange f) Eq (desk.liabilitiesChange f) ∧
      (∀ metric window, desk.OrderFree t (.series metric f window) Eq
        (desk.industrySeries metric f window)) ∧
      (∀ limit, desk.OrderFree t (.topMovers f (clampLimit limit)) Eq
        (desk.topMovers f limit)) ∧
      ((t.trades.map fun r => (r.code, r.date)).Nodup → (t.tickers.map (·.code)).Nodup →
        desk.OrderFree t (.breadth f) (desk.SameMarketBreadth t f) (desk.marketBreadth f)) := by
  refine ⟨orderFree_eq fun c => ?_, orderFree_eq fun c => ?_, orderFree_eq fun c => ?_,
    orderFree_eq fun c => ?_, fun metric window => ?_, fun limit => orderFree_eq fun c => ?_,
    desk.orderFree_marketBreadth t f⟩
  · exact steady_byDate (fun _ => rfl) rfl (allSame_singleton _)
  · exact steady_byDate (fun _ => rfl) rfl (allSame_singleton _)
  · refine steady_byLine ?_ rfl
    exact fun _ => rfl
  · refine steady_byLine ?_ rfl
    exact fun _ => rfl
  · unfold industrySeries
    split_ifs with hmetric
    · exact orderFree_eq fun c => steady_series hmetric
    · exact fun _ _ _ _ _ _ _ _ _ _ => .error _
  · exact steady_movers desk t f _

/-- Two tickers of one industry, over the same sessions. -/
def pairTables : Tables where
  tickers := [⟨"AAA", "HOSE", "STOCK", "Banks"⟩, ⟨"BBB", "HOSE", "ETF", "Banks"⟩]
  trades := sampleTables.trades ++
    sampleTables.trades.map fun r => { r with code := "BBB", close := some 30 }
  ratios := []
  reports := []

theorem orderFree_answers_reversed :
    (pairTables.trades.map fun r => (r.code, r.date)).Nodup ∧
      (pairTables.tickers.map (·.code)).Nodup ∧ Conditions.reversed.Faultless ∧
      Agrees Eq
        ((sampleDesk.priceChange ⟨[.hose], ["Banks"]⟩).run.run (Backend.under .reversed)
          (emptyBackend pairTables 3 0)).1
        ((sampleDesk.priceChange ⟨[.hose], ["Banks"]⟩).run.run
          (Backend.under (.calm fun b => 300 * b.log.length)) (emptyBackend pairTables 1 5)).1 ∧
      Agrees (sampleDesk.SameMarketBreadth pairTables ⟨[.hose], ["Banks"]⟩)
        ((sampleDesk.marketBreadth ⟨[.hose], ["Banks"]⟩).run.run (Backend.under .reversed)
          (emptyBackend pairTables 3 0)).1
        ((sampleDesk.marketBreadth ⟨[.hose], ["Banks"]⟩).run.run
          (Backend.under (.calm fun b => 300 * b.log.length)) (emptyBackend pairTables 1 5)).1 := by
  have htrades : (pairTables.trades.map fun r => (r.code, r.date)).Nodup := by decide
  have hcodes : (pairTables.tickers.map (·.code)).Nodup := by decide
  have hreversed := Conditions.faultless_reversed
  have hcalm := Conditions.faultless_calm fun b => 300 * b.log.length
  have hcold : ∀ {topic : Topic} (purgeEvery now : ℕ), (emptyBackend pairTables purgeEvery
      now).cache.Cold (emptyBackend pairTables purgeEvery now).now topic.key.text :=
    fun _ _ _ he => absurd he List.not_mem_nil
  obtain ⟨hprice, -, -, -, -, -, hbreadth⟩ :=
    sampleDesk.orderFree_answers pairTables ⟨[.hose], ["Banks"]⟩
  refine ⟨htrades, hcodes, hreversed, ?_, ?_⟩
  · exact hprice _ _ hreversed hcalm _ _ (sound_emptyBackend ..) (hcold 3 0)
      (sound_emptyBackend ..) (hcold 1 5)
  · exact hbreadth htrades hcodes _ _ hreversed hcalm _ _ (sound_emptyBackend ..) (hcold 3 0)
      (sound_emptyBackend ..) (hcold 1 5)

/-- For a metric with a window the same list. For the others the same records in some order, with
the same change, entity and date at each place. -/
def SameRecords (metric : Metric) (l l' : List ChangeRecord) : Prop :=
  l.Perm l' ∧ if metric.isWindowed then l = l'
    else l.map ChangeRecord.rankKey = l'.map ChangeRecord.rankKey

variable {desk t f}

theorem SameRecords.of_common {metric : Metric} {l m n : List ChangeRecord}
    (hl : SameRecords metric l n) (hm : SameRecords metric m n) : SameRecords metric l m := by
  refine ⟨hl.1.trans hm.1.symm, ?_⟩
  have hln := hl.2
  have hmn := hm.2
  split_ifs at hln hmn ⊢
  · exact hln.trans hmn.symm
  · exact hln.trans hmn.symm

theorem steady_records (c : Conditions) (metric : Metric) (window : Option Window) :
    Steady c t (desk.truth t) (SameRecords metric) (desk.computeChange metric f window) := by
  cases hmetric : metric.isWindowed with
  | true =>
    refine (steady_windowed hmetric).mono ?_
    rintro l _ rfl
    rw [SameRecords, if_pos hmetric]
    exact ⟨.refl l, rfl⟩
  | false =>
    have hpoint : metric.isPointInTime = true := by
      cases metric <;> first | rfl | cases hmetric
    refine steady_computeChange fun plan _ b => ?_
    have hperm := records_order c t b metric f plan
    refine ⟨((metric.sorted_perm _).trans hperm).trans (metric.sorted_perm _).symm, ?_⟩
    simp only [hmetric, Bool.false_eq_true, if_false, Metric.sorted, hpoint, if_true]
    exact map_rankKey_sortByRank hperm

/-- The change records of a metric are the same ones whatever order rows come in. With a window they
have one order, and without one only their changes, entities and dates have. -/
theorem agrees_computeChange (desk : Desk) (t : Tables) (metric : Metric) (f : Filter)
    (window : Option Window) {c c' : Conditions} (hc : c.Faultless) (hc' : c'.Faultless)
    {b b' : Backend} (hb : b.Sound t (desk.truth t)) (hb' : b'.Sound t (desk.truth t)) :
    Agrees (SameRecords metric)
      ((desk.computeChange metric f window).run.run (Backend.under c) b).1
      ((desk.computeChange metric f window).run.run (Backend.under c') b').1 :=
  ((steady_records c metric window b hb).1.agrees hc).of_common
    ((steady_records c' metric window b' hb').1.agrees hc') SameRecords.of_common

theorem agrees_computeChange_reversed :
    Conditions.reversed.Faultless ∧
      Agrees (SameRecords .liquidityChange)
        ((sampleDesk.computeChange .liquidityChange ⟨[.hose], ["Banks"]⟩ none).run.run
          (Backend.under .reversed) (emptyBackend pairTables 3 0)).1
        ((sampleDesk.computeChange .liquidityChange ⟨[.hose], ["Banks"]⟩ none).run.run
          (Backend.under (.calm fun b => 300 * b.log.length)) (emptyBackend pairTables 1 5)).1 :=
  ⟨Conditions.faultless_reversed, agrees_computeChange sampleDesk pairTables _ _ _
    Conditions.faultless_reversed (Conditions.faultless_calm _) (sound_emptyBackend ..)
    (sound_emptyBackend ..)⟩

/-- Records of one rank stay in the order that they come in. -/
theorem sortByRank_of_tied {records : List ChangeRecord}
    (h : ∀ r ∈ records, ∀ r' ∈ records, r.rankKey = r'.rankKey) :
    ChangeRecord.sortByRank records = records := by
  refine List.mergeSort_of_pairwise (List.pairwise_of_forall_mem_list fun r hr r' hr' => ?_)
  have hcompare : ChangeRecord.compareByRank r r' = compareRankKeys r.rankKey r'.rankKey := rfl
  have hself : compareRankKeys r'.rankKey r'.rankKey = .eq := Std.ReflCmp.compare_self
  rw [hcompare, h r hr r' hr', hself]
  rfl

/-- A ticker with two lines of equity, neither of which changed. -/
def twinTables : Tables where
  tickers := [⟨"AAA", "HOSE", "STOCK", "Banking"⟩]
  trades := []
  ratios := []
  reports := [⟨"AAA", "2023Q3", "Owner's equity", some 8⟩,
    ⟨"AAA", "2023Q3", "Share premium", some 8⟩, ⟨"AAA", "2023Q4", "Owner's equity", some 8⟩,
    ⟨"AAA", "2023Q4", "Share premium", some 8⟩]

/-- The lines of equity in one of the two quarters. -/
def twinAggregate (quarter : String) : Aggregate :=
  ⟨.report Metric.equityLines, .ticker, ⟨[.hose], ["Banking"]⟩, [quarter]⟩

def twinLines : List String := ["owner's equity", "share premium"]

def twinRecord (line : String) : ChangeRecord :=
  .make "2023Q4" "AAA" (some "2023Q3") (some line) (some 8) (some 8)

theorem mem_twinSums {quarter : String} (hquarter : quarter ∈ ["2023Q3", "2023Q4"]) {s : Sum} :
    s ∈ twinTables.sums (twinAggregate quarter) ↔
      ∃ line ∈ twinLines, s = ⟨quarter, "AAA", some line, some 8⟩ := by
  have hkeys : ∀ quarter ∈ ["2023Q3", "2023Q4"],
      (twinTables.joined (twinAggregate quarter)).map Sum.key
        = twinLines.map fun line => (quarter, "AAA", some line) := by
    decide +kernel
  have htotal : ∀ quarter ∈ ["2023Q3", "2023Q4"], ∀ line ∈ twinLines,
      Tables.total (((twinTables.joined (twinAggregate quarter)).filter fun r =>
        r.key = (quarter, "AAA", some line)).map (·.value)) = some 8 := by
    decide +kernel
  have hmem : (∃ r ∈ twinTables.joined (twinAggregate quarter), r.key = s.key) ↔
      ∃ line ∈ twinLines, (quarter, "AAA", some line) = s.key := by
    rw [← List.mem_map, hkeys quarter hquarter, List.mem_map]
  rw [Tables.mem_sums_iff, hmem]
  constructor
  · rintro ⟨⟨line, hline, hkey⟩, hvalue⟩
    rw [← hkey, htotal quarter hquarter line hline] at hvalue
    obtain ⟨date, entity, report, value⟩ := s
    cases hkey
    cases hvalue
    exact ⟨line, hline, rfl⟩
  · rintro ⟨line, hline, rfl⟩
    exact ⟨⟨line, hline, rfl⟩, (htotal quarter hquarter line hline).symm⟩

theorem mem_twinRecords {r : ChangeRecord} :
    r ∈ twinTables.comparedRecords (twinAggregate "2023Q4") ["2023Q3"] false ↔
      ∃ line ∈ twinLines, r = twinRecord line := by
  have hprior : ({ twinAggregate "2023Q4" with dates := ["2023Q3"] } : Aggregate)
      = twinAggregate "2023Q3" := rfl
  rw [Tables.mem_comparedRecords, hprior]
  constructor
  · rintro ⟨c, hc, p, hp, hcomparable, rfl⟩
    obtain ⟨line, hline, rfl⟩ := (mem_twinSums (by decide)).1 hc
    obtain ⟨line', -, rfl⟩ := (mem_twinSums (by decide)).1 hp
    exact ⟨line, hline, rfl⟩
  · rintro ⟨line, hline, rfl⟩
    refine ⟨_, (mem_twinSums (by decide)).2 ⟨line, hline, rfl⟩, _,
      (mem_twinSums (by decide)).2 ⟨line, hline, rfl⟩, ?_, rfl⟩
    exact (Tables.comparable_iff _ _ _).2 ⟨(by decide : "2023Q3" ≤ "2023Q4"), rfl, rfl⟩

/-- The two records of a company, which tie, change places with the rows. -/
theorem computeChange_reversed :
    Conditions.reversed.Faultless ∧ ∃ l l' : List ChangeRecord,
      ((sampleDesk.computeChange .equityChange ⟨[.hose], ["Banking"]⟩ none).run.run
        (Backend.under (.calm fun _ => 0)) (Backend.fresh (.tables twinTables))).1 = .ok l ∧
      ((sampleDesk.computeChange .equityChange ⟨[.hose], ["Banking"]⟩ none).run.run
        (Backend.under .reversed) (Backend.fresh (.tables twinTables))).1 = .ok l' ∧ l ≠ l' := by
  let records := twinTables.comparedRecords (twinAggregate "2023Q4") ["2023Q3"] false
  have htied : ∀ r ∈ records, ∀ r' ∈ records, r.rankKey = r'.rankKey := by
    intro r hr r' hr'
    obtain ⟨line, -, rfl⟩ := mem_twinRecords.1 hr
    obtain ⟨line', -, rfl⟩ := mem_twinRecords.1 hr'
    rfl
  have hnodup : records.Nodup :=
    .of_map _ (twinTables.nodup_comparedRecords (twinAggregate "2023Q4") ["2023Q3"] false)
  -- Only the members of the records are computed. Tied records stay as they come, so it is enough
  -- that there are two of them and that one list is the other one reversed.
  have hperm : records.Perm (twinLines.map twinRecord) := by
    refine (List.perm_ext_iff_of_nodup hnodup (by decide)).2 fun r => ?_
    rw [mem_twinRecords, List.mem_map]
    simp only [eq_comm]
  refine ⟨Conditions.faultless_reversed, records, records.reverse, ?_, ?_, ?_⟩
  · rw [← sortByRank_of_tied htied]
    rfl
  · have hreversed : records.reverse = ChangeRecord.sortByRank ((twinTables.comparisonRows
        (twinAggregate "2023Q4") ["2023Q3"] false).reverse.filterMap ChangeRecord.ofRow?) := by
      rw [List.filterMap_reverse]
      refine (sortByRank_of_tied fun r hr r' hr' => ?_).symm
      exact htied r (List.mem_reverse.1 hr) r' (List.mem_reverse.1 hr')
    rw [hreversed]
    rfl
  · obtain ⟨x, y, hxy⟩ := List.length_eq_two.1 hperm.length_eq
    rw [hxy, List.nodup_cons, List.mem_singleton] at hnodup
    rw [hxy]
    exact fun h => hnodup.1 (List.cons.inj h).1

end Desk

end Bourse
