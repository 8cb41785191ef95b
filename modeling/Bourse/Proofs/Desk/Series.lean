import Bourse.Proofs.Desk.Calls
import Bourse.Proofs.Desk.Samples
import Bourse.Proofs.Tables.Series

/-!
# Series over sampled dates

A desk makes a series out of the records of a plan (`plain_industrySeries`). Records have different
keys, so a series has no more points of one date and industry than the metric has report lines
(`countP_industrySeries_le`), though it may have that many (`industrySeries_two_points`). Over the
dates that a window samples, a series is told from the sums of its parts alone, whether it compares
each date with the one before it (`industrySeries_lagged`) or all of them with the oldest one
(`industrySeries_offset`).
-/

namespace Bourse

namespace Metric

variable {metric : Metric} (h : metric.isWindowed = true)

include h

theorem strategy_of_isWindowed : metric.strategy = .offset ∨ metric.strategy = .lag := by
  simpa [isWindowed] using h

theorem entity_of_isWindowed : metric.entity = .industry := by
  cases metric <;> first | rfl | exact absurd h (by decide)

end Metric

namespace Desk

open Analysis

variable (desk : Desk) {t : Tables} (f : Filter) (window : Window) {metric : Metric}

theorem plain_plan_lag (h : metric.strategy = .lag) : plain t (desk.plan metric (some window))
    = (plain t (desk.sampleDates metric.measure window) >>= fun dates => .ok (.lag dates)) := by
  unfold plan
  rw [h]
  exact plain_bind t (desk.sampleDates metric.measure window) fun dates => pure (Plan.lag dates)

theorem plain_plan_offset (h : metric.strategy = .offset) :
    plain t (desk.plan metric (some window))
      = (plain t (desk.sampleDates metric.measure window) >>= fun dates =>
          match leastText dates with
          | some start => .ok (.compare dates [start] false)
          | none => .error (.unresolved (.noSamples metric.key))) := by
  unfold plan
  rw [h]
  refine (plain_bind t (desk.sampleDates metric.measure window) _).trans ?_
  refine congrArg _ (funext fun dates => ?_)
  cases leastText dates <;> rfl

/-- The records that a plan gives over some tables. -/
def planRecords (t : Tables) (metric : Metric) (f : Filter) (plan : Plan) : List ChangeRecord :=
  plan.records (t.answer (plan.statement metric f))

theorem planRecords_lag (h : metric.entity = .industry) (dates : List String) :
    planRecords t metric f (.lag dates)
      = t.laggedRecords ⟨metric.measure, .industry, f, dates⟩ := by
  rw [← h]
  rfl

theorem planRecords_offset (h : metric.entity = .industry) (dates : List String) (start : String) :
    planRecords t metric f (.compare dates [start] false)
      = t.offsetRecords ⟨metric.measure, .industry, f, dates⟩ start := by
  rw [← h]
  rfl

theorem plain_execute (h : metric.entity = .industry) (plan : Plan) :
    plain t (execute metric f plan)
      = .ok (ChangeRecord.sortByTime (planRecords t metric f plan)) := by
  have hpoint : metric.isPointInTime = false := by simp [Metric.isPointInTime, h]
  have hsorted : metric.sorted = ChangeRecord.sortByTime :=
    funext fun records => if_neg (by simp [hpoint])
  rw [execute_eq, plain_map, hsorted]
  rfl

theorem plain_industrySeries (h : metric.isWindowed = true) :
    plain t (desk.industrySeries metric f window)
      = (plain t (desk.plan metric (some window)) >>= fun plan =>
          .ok ((ChangeRecord.sortByTime (planRecords t metric f plan)).map
            IndustryPoint.ofChange)) := by
  rw [industrySeries, if_pos h, Gateway.getOrCompute, plain_getOrComputeFor, plain_bind,
    computeChange, plain_bind]
  cases plain t (desk.plan metric (some window)) with
  | error e => rfl
  | ok plan =>
    show (plain t (execute metric f plan) >>= _) = _
    rw [plain_execute f (Metric.entity_of_isWindowed h)]
    rfl

/-- Over an empty cache a series is its plain outcome. -/
theorem run_industrySeries (t : Tables) (metric : Metric) (delay : Backend → ℕ)
    (purgeEvery now : ℕ) :
    ((desk.industrySeries metric f window).run.run (Backend.timed delay)
      (emptyBackend t purgeEvery now)).1 = plain t (desk.industrySeries metric f window) := by
  unfold industrySeries
  split_ifs
  · have hcomputation : Transparent t (desk.truth t) Eq (do
        let records ← desk.computeChange metric f (some window)
        return records.map IndustryPoint.ofChange) :=
      (desk.transparent_computeChange t metric f (some window)).bind fun _ => transparent_pure _
    rw [Gateway.getOrCompute, run_getOrComputeFor delay hcomputation (sound_emptyBackend ..)
      fun _ he => absurd he List.not_mem_nil, plain_getOrComputeFor]
  · rfl

section Runs

variable {f window} (h : metric.isWindowed = true) (delay : Backend → ℕ) (purgeEvery now : ℕ)

include h

/-- A plan gives the series of its records. -/
theorem run_of_plan {plan : Plan} (hplan : plain t (desk.plan metric (some window)) = .ok plan) :
    ((desk.industrySeries metric f window).run.run (Backend.timed delay)
      (emptyBackend t purgeEvery now)).1
        = .ok ((ChangeRecord.sortByTime (planRecords t metric f plan)).map
            IndustryPoint.ofChange) := by
  rw [run_industrySeries, plain_industrySeries desk f window h, hplan]
  rfl

/-- Without sampled dates there is no series. -/
theorem run_of_unsampled {e : Fault}
    (he : plain t (desk.sampleDates metric.measure window) = .error e) :
    ((desk.industrySeries metric f window).run.run (Backend.timed delay)
      (emptyBackend t purgeEvery now)).1 = .error e := by
  rw [run_industrySeries, plain_industrySeries desk f window h]
  rcases Metric.strategy_of_isWindowed h with hoffset | hlag
  · rw [plain_plan_offset desk window hoffset, he]
    rfl
  · rw [plain_plan_lag desk window hlag, he]
    rfl

end Runs

theorem exists_plan (hwindowed : metric.isWindowed = true) {plan : Plan}
    (h : plain t (desk.plan metric (some window)) = .ok plan) :
    (∃ dates, plan = .lag dates) ∨ ∃ dates start, plan = .compare dates [start] false := by
  rcases Metric.strategy_of_isWindowed hwindowed with hoffset | hlag
  · rw [plain_plan_offset desk window hoffset] at h
    obtain ⟨dates, -, h⟩ := of_bind_eq_ok h
    split at h <;> cases h
    exact .inr ⟨dates, _, rfl⟩
  · rw [plain_plan_lag desk window hlag] at h
    obtain ⟨dates, -, h⟩ := of_bind_eq_ok h
    cases h
    exact .inl ⟨dates, rfl⟩

/-- The records of a series have different keys, and each has a report line of the metric. -/
theorem exists_records {series : List IndustryPoint}
    (h : plain t (desk.industrySeries metric f window) = .ok series) :
    ∃ records : List ChangeRecord, (records.map ChangeRecord.key).Nodup ∧
      (∀ r ∈ records, r.report ∈ metric.measure.lines) ∧
      series = (ChangeRecord.sortByTime records).map IndustryPoint.ofChange := by
  by_cases hwindowed : metric.isWindowed = true
  · have hentity := Metric.entity_of_isWindowed hwindowed
    rw [plain_industrySeries desk f window hwindowed] at h
    obtain ⟨plan, hplan, h⟩ := of_bind_eq_ok h
    refine ⟨planRecords t metric f plan, ?_, ?_, (Except.ok.inj h).symm⟩
    · rcases exists_plan desk window hwindowed hplan with ⟨dates, rfl⟩ | ⟨dates, start, rfl⟩
      · rw [planRecords_lag f hentity]
        exact t.nodup_laggedRecords _
      · rw [planRecords_offset f hentity]
        exact t.nodup_offsetRecords _ start
    · rcases exists_plan desk window hwindowed hplan with ⟨dates, rfl⟩ | ⟨dates, start, rfl⟩
      · rw [planRecords_lag f hentity]
        exact fun r => t.line_mem_laggedRecords
      · rw [planRecords_offset f hentity]
        exact fun r => t.line_mem_offsetRecords
  · rw [industrySeries, if_neg hwindowed] at h
    cases h

/-- A series has no more points of one date and industry than its metric has report lines, and one
at most when the metric has none. -/
theorem countP_industrySeries_le (t : Tables) (metric : Metric) (delay : Backend → ℕ)
    (purgeEvery now : ℕ) {series : List IndustryPoint}
    (h : ((desk.industrySeries metric f window).run.run (Backend.timed delay)
      (emptyBackend t purgeEvery now)).1 = .ok series) (date industry : String) :
    series.countP (fun p => p.date = date ∧ p.industry = industry)
      ≤ metric.measure.lines.length := by
  rw [run_industrySeries] at h
  obtain ⟨records, hkeys, hlines, rfl⟩ := exists_records desk f window h
  exact countP_sortByTime_le hkeys hlines date industry

/-- Two banks in one quarter, of which one reports interest income and the other one revenue. -/
def bankTables : Tables where
  tickers := [⟨"AAA", "HOSE", "STOCK", "Banking"⟩, ⟨"BBB", "HOSE", "STOCK", "Banking"⟩]
  trades := []
  ratios := []
  reports := [⟨"AAA", "2023Q4", "Net interest income", some 5⟩,
    ⟨"BBB", "2023Q4", "Net revenue", some 7⟩]

def hoseBanking : Filter :=
  ⟨[.hose], ["Banking"]⟩

theorem run_bankTables : ((sampleDesk.industrySeries .netRevenue hoseBanking ⟨.quarter, 1⟩).run.run
    (Backend.timed fun _ => 700) (emptyBackend bankTables 3 0)).1
      = .ok ((ChangeRecord.sortByTime (bankTables.laggedRecords ⟨Metric.netRevenue.measure,
          .industry, hoseBanking, ["2023Q3", "2023Q4"]⟩)).map IndustryPoint.ofChange) := by
  have hplan : plain bankTables (sampleDesk.plan .netRevenue (some ⟨.quarter, 1⟩))
      = .ok (.lag ["2023Q3", "2023Q4"]) := by
    decide
  exact run_of_plan sampleDesk rfl _ 3 0 hplan

theorem countP_industrySeries_le_sample : ∃ series,
    ((sampleDesk.industrySeries .netRevenue hoseBanking ⟨.quarter, 1⟩).run.run
      (Backend.timed fun _ => 700) (emptyBackend bankTables 3 0)).1 = .ok series ∧
    series.countP (fun p => p.date = "2023Q4" ∧ p.industry = "Banking")
      ≤ Metric.netRevenue.measure.lines.length :=
  ⟨_, run_bankTables, countP_industrySeries_le sampleDesk hoseBanking ⟨.quarter, 1⟩ bankTables
    .netRevenue _ 3 0 run_bankTables "2023Q4" "Banking"⟩

/-- Two points of one date and industry, for the banks' two report lines. -/
theorem industrySeries_two_points :
    Filter.make "HOSE" ["Banking"] = .ok hoseBanking ∧
      Window.make .quarter 1 = .ok ⟨.quarter, 1⟩ ∧
      ∃ series, ((sampleDesk.industrySeries .netRevenue hoseBanking ⟨.quarter, 1⟩).run.run
          (Backend.timed fun _ => 700) (emptyBackend bankTables 3 0)).1 = .ok series ∧
        series.countP (fun p => p.date = "2023Q4" ∧ p.industry = "Banking") = 2 := by
  refine ⟨by decide +kernel, by decide, _, run_bankTables, le_antisymm ?_ ?_⟩
  · exact countP_sortByTime_le (bankTables.nodup_laggedRecords _)
      (fun r => bankTables.line_mem_laggedRecords) "2023Q4" "Banking"
  · refine le_countP_sortByTime
      (by decide : [some "net revenue", some "net interest income"].Nodup) fun line hline => ?_
    rw [Tables.mem_keys_laggedRecords (by decide)]
    revert line
    decide

section Series

variable {S : SessionTable → Finset Date} {unit : Period} {order : UInt32} {window : Window}

/-- The series of a metric that compares each date with the one before it has one point for each
sampled date and each part with a row there, which is the change of the part's sum from the last
sampled date before it with a row. There is no series when there are no samples. -/
theorem industrySeries_lagged (h : ∀ table, t.Dated table (S table))
    (hcodes : (t.tickers.map (·.code)).Nodup)
    (htoday : 1021 ≤ desk.today.year ∧ desk.today.year ≤ 9999)
    (hmetric : metric ∈ [.netRevenue, .grossProfit, .operatingProfit, .eps, .ebitda, .cashDividend])
    (hwindow : Window.make unit order = .ok window) (delay : Backend → ℕ) (purgeEvery now : ℕ) :
    (∀ dates, samples? S desk.today metric.measure window = some dates →
      ∃ series, ((desk.industrySeries metric f window).run.run (Backend.timed delay)
          (emptyBackend t purgeEvery now)).1 = .ok series ∧
        IsSeries dates (fun date part => (t.sumAt? metric.measure f date part).isSome)
          (fun date part => t.partChange metric.measure f
            (t.priorDate? metric.measure f dates date part) date part) series) ∧
    (samples? S desk.today metric.measure window = none →
      ∃ e, ((desk.industrySeries metric f window).run.run (Backend.timed delay)
        (emptyBackend t purgeEvery now)).1 = .error e) := by
  have hlag : metric.strategy = .lag := by
    simp only [List.mem_cons, List.not_mem_nil, or_false] at hmetric
    rcases hmetric with rfl | rfl | rfl | rfl | rfl | rfl <;> rfl
  have hwindowed : metric.isWindowed = true := by simp [Metric.isWindowed, hlag]
  have horder := Window.order_le_of_make hwindow
  obtain ⟨hfound, hmissing⟩ := plain_sampleDates metric.measure horder h htoday
  constructor
  · intro dates hdates
    -- The desk lists the same dates in an order of its own, so only membership carries over.
    obtain ⟨sampled, hrun, hsampled⟩ := hfound dates hdates
    obtain ⟨hpairwise, -⟩ :=
      pairwise_samples htoday horder (fun table => (h table).year_mem) hdates
    have hplan : plain t (desk.plan metric (some window)) = .ok (.lag sampled) := by
      rw [plain_plan_lag desk window hlag, hrun]
      rfl
    have hseries := run_of_plan desk (f := f) hwindowed delay purgeEvery now hplan
    rw [planRecords_lag f (Metric.entity_of_isWindowed hwindowed)] at hseries
    refine ⟨_, hseries, isSeries_sortByTime (t.nodup_laggedRecords _) hpairwise
      (fun date part => ?_) fun r hr => ?_⟩
    · exact (Tables.mem_keys_laggedRecords hcodes).trans (by rw [hsampled])
    · exact Tables.percentChange_laggedRecords hcodes hpairwise hsampled hr
  · intro hnone
    obtain ⟨e, he⟩ := hmissing hnone
    exact ⟨e, run_of_unsampled desk hwindowed delay purgeEvery now he⟩

/-- Earnings of two industries, of which one has a gap. -/
def earningsTables : Tables where
  tickers := [⟨"AAA", "HOSE", "STOCK", "Banking"⟩, ⟨"BBB", "HOSE", "ETF", "Retail"⟩]
  trades := []
  ratios := [⟨"AAA", "2023-09-29", "EPS_TR", some 4⟩, ⟨"BBB", "2023-09-29", "EPS_TR", some 8⟩,
    ⟨"AAA", "2023-12-29", "EPS_TR", some 5⟩, ⟨"BBB", "2024-01-05", "EPS_TR", none⟩,
    ⟨"AAA", "2024-01-05", "EPS_TR", some 6⟩]
  reports := []

def earningsDays : List Date :=
  [(2023, 9, 29), (2023, 9, 29), (2023, 12, 29), (2024, 1, 5), (2024, 1, 5)].map
    fun (year, month, day) => (Date.of? year month day).getD default

def earningsDates : SessionTable → Finset Date
  | .trades => ∅
  | .ratios => earningsDays.toFinset

theorem earningsTables_dated : ∀ table, earningsTables.Dated table (earningsDates table)
  | .trades => Tables.dated_toFinset (by decide : _ = ([] : List Date).map Date.iso) (by decide)
  | .ratios => Tables.dated_toFinset (by decide) (by decide)

theorem samples_earnings : samples? earningsDates sampleDesk.today Metric.eps.measure ⟨.quarter, 2⟩
    = some ["2023-09-29", "2023-12-29", "2024-01-05"] := by
  have hnear : sessionsNear (earningsDates .ratios)
      (Window.anchors sampleDesk.today ⟨.quarter, 2⟩) = earningsDays.reverse.dedup.toFinset := by
    decide
  have hall : ∀ target ∈ Window.anchors sampleDesk.today ⟨.quarter, 2⟩,
      ∃ d ∈ earningsDates .ratios, d ≤ target := by
    decide
  have hsessions : Metric.eps.measure.sessions = some .ratios := rfl
  simp only [samples?, hsessions, if_pos hall, hnear]
  rw [descending_toFinset (by decide)]
  rfl

def everyBank : Filter :=
  ⟨[.hose, .hnx], ["Banking", "Retail"]⟩

theorem industrySeries_lagged_sample :
    (∀ table, earningsTables.Dated table (earningsDates table)) ∧
      (earningsTables.tickers.map (·.code)).Nodup ∧
      (1021 ≤ sampleDesk.today.year ∧ sampleDesk.today.year ≤ 9999) ∧
      Metric.eps ∈ [.netRevenue, .grossProfit, .operatingProfit, .eps, .ebitda, .cashDividend] ∧
      Window.make .quarter 2 = .ok ⟨.quarter, 2⟩ ∧
      samples? earningsDates sampleDesk.today Metric.eps.measure ⟨.quarter, 2⟩
        = some ["2023-09-29", "2023-12-29", "2024-01-05"] ∧
      ∃ series, ((sampleDesk.industrySeries .eps everyBank ⟨.quarter, 2⟩).run.run
          (Backend.timed fun _ => 700) (emptyBackend earningsTables 3 0)).1 = .ok series ∧
        IsSeries ["2023-09-29", "2023-12-29", "2024-01-05"]
          (fun date part => (earningsTables.sumAt? Metric.eps.measure everyBank date part).isSome)
          (fun date part => earningsTables.partChange Metric.eps.measure everyBank
            (earningsTables.priorDate? Metric.eps.measure everyBank
              ["2023-09-29", "2023-12-29", "2024-01-05"] date part) date part) series := by
  have hcodes : (earningsTables.tickers.map (·.code)).Nodup := by decide
  have htoday : 1021 ≤ sampleDesk.today.year ∧ sampleDesk.today.year ≤ 9999 := by decide
  have hwindow : Window.make .quarter 2 = .ok ⟨.quarter, 2⟩ := by decide
  have hmetric : Metric.eps ∈ [.netRevenue, .grossProfit, .operatingProfit, .eps, .ebitda,
      .cashDividend] := by decide
  exact ⟨earningsTables_dated, hcodes, htoday, hmetric, hwindow, samples_earnings,
    (industrySeries_lagged sampleDesk everyBank earningsTables_dated hcodes htoday hmetric hwindow
      _ 3 0).1 _ samples_earnings⟩

/-- The series of a metric that compares all dates with the oldest one, the start, has one point for
each sampled date and each part with rows both there and at the start, which is the change of the
part's sum from the start. There is no series when there are no samples. -/
theorem industrySeries_offset (h : ∀ table, t.Dated table (S table))
    (hcodes : (t.tickers.map (·.code)).Nodup)
    (htoday : 1021 ≤ desk.today.year ∧ desk.today.year ≤ 9999)
    (hmetric : metric ∈ [.marketCapChange, .industryLiquidityChange, .equityIndustryChange,
      .liabilitiesIndustryChange])
    (hwindow : Window.make unit order = .ok window) (delay : Backend → ℕ) (purgeEvery now : ℕ) :
    (∀ dates, samples? S desk.today metric.measure window = some dates →
      ∃ start, dates.head? = some start ∧
        ∃ series, ((desk.industrySeries metric f window).run.run (Backend.timed delay)
            (emptyBackend t purgeEvery now)).1 = .ok series ∧
          IsSeries dates (fun date part => (t.sumAt? metric.measure f date part).isSome ∧
              (t.sumAt? metric.measure f start part).isSome)
            (fun date part => t.partChange metric.measure f (some start) date part) series) ∧
    (samples? S desk.today metric.measure window = none →
      ∃ e, ((desk.industrySeries metric f window).run.run (Backend.timed delay)
        (emptyBackend t purgeEvery now)).1 = .error e) := by
  have hoffset : metric.strategy = .offset := by
    simp only [List.mem_cons, List.not_mem_nil, or_false] at hmetric
    rcases hmetric with rfl | rfl | rfl | rfl <;> rfl
  have hwindowed : metric.isWindowed = true := by simp [Metric.isWindowed, hoffset]
  have horder := Window.order_le_of_make hwindow
  obtain ⟨hfound, hmissing⟩ := plain_sampleDates metric.measure horder h htoday
  constructor
  · intro dates hdates
    obtain ⟨sampled, hrun, hsampled⟩ := hfound dates hdates
    obtain ⟨hpairwise, hne⟩ :=
      pairwise_samples htoday horder (fun table => (h table).year_mem) hdates
    obtain ⟨start, rest, rfl⟩ := List.exists_cons_of_ne_nil hne
    have hplan : plain t (desk.plan metric (some window))
        = .ok (.compare sampled [start] false) := by
      rw [plain_plan_offset desk window hoffset, hrun]
      show (match leastText sampled with
        | some start => Except.ok (Plan.compare sampled [start] false)
        | none => .error _) = _
      rw [leastText_of_pairwise hpairwise hsampled]
    -- No sampled date is before the start, so the comparison of texts drops none of the records.
    have hstart : ∀ d ∈ sampled, start ≤ d := fun d hd =>
      (hpairwise.imp le_of_lt).rel_head ((hsampled d).1 hd)
    have hseries := run_of_plan desk (f := f) hwindowed delay purgeEvery now hplan
    rw [planRecords_offset f (Metric.entity_of_isWindowed hwindowed)] at hseries
    refine ⟨start, rfl, _, hseries, isSeries_sortByTime (t.nodup_offsetRecords _ start) hpairwise
      (fun date part => ?_) fun r hr => ?_⟩
    · exact (Tables.mem_keys_offsetRecords hcodes hstart).trans (by rw [hsampled])
    · exact Tables.percentChange_offsetRecords hcodes hr
  · intro hnone
    obtain ⟨e, he⟩ := hmissing hnone
    exact ⟨e, run_of_unsampled desk hwindowed delay purgeEvery now he⟩

/-- Liabilities of two industries under two names, one of which is missing at the start. -/
def debtTables : Tables where
  tickers := [⟨"AAA", "HOSE", "STOCK", "Banking"⟩, ⟨"BBB", "HOSE", "ETF", "Retail"⟩]
  trades := []
  ratios := []
  reports := [⟨"AAA", "2023Q3", "Total liabilities", some 8⟩,
    ⟨"AAA", "2023Q4", "total liabilities", some 6⟩, ⟨"AAA", "2023Q4", "Liabilities", some 5⟩,
    ⟨"BBB", "2023Q3", "liabilities", none⟩, ⟨"BBB", "2023Q4", "Liabilities", some 3⟩]

theorem debtTables_dated (table : SessionTable) : debtTables.Dated table ∅ := by
  cases table <;>
    exact Tables.dated_toFinset (by decide : _ = ([] : List Date).map Date.iso) (by decide)

theorem industrySeries_offset_sample :
    (∀ table, debtTables.Dated table ∅) ∧ (debtTables.tickers.map (·.code)).Nodup ∧
      (1021 ≤ sampleDesk.today.year ∧ sampleDesk.today.year ≤ 9999) ∧
      Metric.liabilitiesIndustryChange ∈ [.marketCapChange, .industryLiquidityChange,
        .equityIndustryChange, .liabilitiesIndustryChange] ∧
      Window.make .quarter 1 = .ok ⟨.quarter, 1⟩ ∧
      samples? (fun _ => ∅) sampleDesk.today Metric.liabilitiesIndustryChange.measure ⟨.quarter, 1⟩
        = some ["2023Q3", "2023Q4"] ∧
      ∃ start, ["2023Q3", "2023Q4"].head? = some start ∧
        ∃ series, ((sampleDesk.industrySeries .liabilitiesIndustryChange everyBank
            ⟨.quarter, 1⟩).run.run (Backend.timed fun _ => 700) (emptyBackend debtTables 3 0)).1
              = .ok series ∧
          IsSeries ["2023Q3", "2023Q4"]
            (fun date part =>
              (debtTables.sumAt? Metric.liabilitiesIndustryChange.measure everyBank date
                part).isSome ∧
              (debtTables.sumAt? Metric.liabilitiesIndustryChange.measure everyBank start
                part).isSome)
            (fun date part => debtTables.partChange Metric.liabilitiesIndustryChange.measure
              everyBank (some start) date part) series := by
  have hcodes : (debtTables.tickers.map (·.code)).Nodup := by decide
  have htoday : 1021 ≤ sampleDesk.today.year ∧ sampleDesk.today.year ≤ 9999 := by decide
  have hmetric : Metric.liabilitiesIndustryChange ∈ [.marketCapChange, .industryLiquidityChange,
      .equityIndustryChange, .liabilitiesIndustryChange] := by decide
  have hwindow : Window.make .quarter 1 = .ok ⟨.quarter, 1⟩ := by decide
  have hsamples : samples? (fun _ => ∅) sampleDesk.today
      Metric.liabilitiesIndustryChange.measure ⟨.quarter, 1⟩ = some ["2023Q3", "2023Q4"] := by
    decide
  exact ⟨debtTables_dated, hcodes, htoday, hmetric, hwindow, hsamples,
    (industrySeries_offset sampleDesk everyBank debtTables_dated hcodes htoday hmetric hwindow
      _ 3 0).1 _ hsamples⟩

end Series

end Desk

end Bourse
