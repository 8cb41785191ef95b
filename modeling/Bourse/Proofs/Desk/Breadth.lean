import Bourse.Proofs.Desk.RowOrder
import Bourse.Proofs.List.Descending
import Bourse.Proofs.Tables.Pairings

/-!
# Breadth in any order

What the breadth of the market is by the tables alone: the changes that a mean is taken over are
those of the tickers of an industry (`Tables.tickerChanges`). The rows that it is made of may come
in any order. Each close is told by its ticker and date, and each count by its industry, so the
industries and their counts are the same, and the means are taken over the same changes
(`forall₂_breadth`).
-/

namespace Bourse

namespace Tables

variable (t : Tables) (f : Filter)

/-- The closing price of a ticker at a date. -/
def close? (code date : String) : Option Float :=
  (t.tradeAt? code date).bind (·.close)

/-- The changes between two dates of the tickers of an industry that the filter admits. -/
def tickerChanges (industry baseline latest : String) : List Float :=
  (t.members f industry).filterMap fun code =>
    percentChange (t.close? code baseline) (t.close? code latest)

/-- The closes at some dates of the tickers that the filter admits, in the order of the trades. -/
def closes (dates : List String) : List Close :=
  (t.closeRows f dates).filterMap Close.ofRow?

variable {t f} {dates : List String}
  (htrades : (t.trades.map fun r => (r.code, r.date)).Nodup)

include htrades

theorem close?_eq_some_iff {code date : String} {price : Float} :
    t.close? code date = some price ↔
      ∃ r ∈ t.trades, (r.code = code ∧ r.date = date) ∧ r.close = some price := by
  rw [close?, Option.bind_eq_some_iff]
  refine exists_congr fun r => ?_
  rw [tradeAt?_eq_some_iff htrades, and_assoc]

variable (hcodes : (t.tickers.map (·.code)).Nodup)

include hcodes

theorem mem_closes {c : Close} : c ∈ t.closes f dates ↔ c.date ∈ dates ∧
    (t.Admits f c.code ∧ t.InIndustry c.industry c.code) ∧
      t.close? c.code c.date = some c.price := by
  have hrow : ∀ (r : Trade) (industry : String), Close.ofRow?
      ⟨[("code", .text r.code), ("industry", .text industry), ("d", .text r.date),
        ("v", numberCell r.close)]⟩
        = r.close.map fun price => ⟨r.code, industry, r.date, price⟩ := by
    intro r industry
    cases hclose : r.close <;> rfl
  simp only [closes, closeRows, List.mem_filterMap, List.mem_filter, List.contains_iff_mem,
    Option.map_eq_some_iff, ← industry_admitted? hcodes, close?_eq_some_iff htrades]
  constructor
  · rintro ⟨_, ⟨r, ⟨hr, hdate⟩, k, hk, rfl⟩, hc⟩
    rw [hrow, Option.map_eq_some_iff] at hc
    obtain ⟨price, hprice, rfl⟩ := hc
    exact ⟨hdate, ⟨k, hk, rfl⟩, r, hr, ⟨rfl, rfl⟩, hprice⟩
  · rintro ⟨hdate, ⟨k, hk, hindustry⟩, r, hr, ⟨hcode, hrdate⟩, hprice⟩
    refine ⟨_, ⟨r, ⟨hr, hrdate ▸ hdate⟩, k, hcode ▸ hk, rfl⟩, ?_⟩
    rw [hrow, hprice, Option.map_some, hcode, hindustry, hrdate]

end Tables

namespace Close

theorem codes_tickers (closes : List Close) :
    (tickers closes).map (·.1) = (closes.map (·.code)).eraseDups := by
  have hfound : ∀ code ∈ (closes.map (·.code)).eraseDups,
      ((closes.find? (·.code == code)).map fun c => (code, c.industry)).map (·.1)
        = some code := by
    intro code hcode
    obtain ⟨c, hc, rfl⟩ := List.mem_map.1 (List.mem_eraseDups.1 hcode)
    have hsome : (closes.find? (·.code == c.code)).isSome :=
      List.find?_isSome.2 ⟨c, hc, beq_self_eq_true _⟩
    obtain ⟨d, hd⟩ := Option.isSome_iff_exists.1 hsome
    rw [hd]
    rfl
  rw [tickers, List.map_filterMap, List.filterMap_congr hfound, List.filterMap_some]

section Perm

variable {t : Tables} {f : Filter} {dates : List String} {closes : List Close}
  (htrades : (t.trades.map fun r => (r.code, r.date)).Nodup)
  (hcodes : (t.tickers.map (·.code)).Nodup) (h : closes.Perm (t.closes f dates))

include htrades hcodes h

theorem mem_tickers {code industry : String} : (code, industry) ∈ tickers closes ↔
    (t.Admits f code ∧ t.InIndustry industry code) ∧
      ∃ date ∈ dates, (t.close? code date).isSome := by
  have hmem : ∀ c, c ∈ closes ↔ _ := fun c =>
    h.mem_iff.trans (Tables.mem_closes htrades hcodes)
  simp only [tickers, List.mem_filterMap, List.mem_eraseDups, List.mem_map,
    Option.map_eq_some_iff, Prod.mk.injEq]
  constructor
  · rintro ⟨code, -, c, hfind, rfl, rfl⟩
    have hc := (hmem c).1 (List.mem_of_find?_eq_some hfind)
    have hcode : c.code = code := by simpa using List.find?_some hfind
    rw [← hcode]
    exact ⟨hc.2.1, c.date, hc.1, Option.isSome_iff_exists.2 ⟨_, hc.2.2⟩⟩
  · rintro ⟨hticker, date, hdate, hsome⟩
    obtain ⟨price, hprice⟩ := Option.isSome_iff_exists.1 hsome
    have hc := (hmem ⟨code, industry, date, price⟩).2 ⟨hdate, hticker, hprice⟩
    refine ⟨code, ⟨_, hc, rfl⟩, ?_⟩
    cases hfind : closes.find? (·.code == code) with
    | none => exact absurd (List.find?_eq_none.1 hfind _ hc) (by simp)
    | some c =>
      refine ⟨c, rfl, rfl, ?_⟩
      have hcindustry := ((hmem c).1 (List.mem_of_find?_eq_some hfind)).2.1
      have hcode : c.code = code := by simpa using List.find?_some hfind
      rw [hcode, ← Tables.industry_admitted? hcodes] at hcindustry
      rw [← Tables.industry_admitted? hcodes, hcindustry] at hticker
      exact Option.some.inj hticker

theorem price?_eq {code date : String} (hadmits : t.Admits f code) (hdate : date ∈ dates) :
    price? closes code date = t.close? code date := by
  have hmem : ∀ c, c ∈ closes ↔ _ := fun c =>
    h.mem_iff.trans (Tables.mem_closes htrades hcodes)
  have hprice : ∀ c ∈ closes, (c.code == code && c.date == date) = true →
      t.close? code date = some c.price := by
    intro c hc hkey
    rw [Bool.and_eq_true, beq_iff_eq, beq_iff_eq] at hkey
    rw [← hkey.1, ← hkey.2]
    exact ((hmem c).1 hc).2.2
  rw [price?, List.findRev?_eq_find?_reverse]
  cases hfind : closes.reverse.find? fun c => c.code == code && c.date == date with
  | some c =>
    have hc := List.mem_reverse.1 (List.mem_of_find?_eq_some hfind)
    have hkey := List.find?_some hfind
    exact (hprice c hc hkey).symm
  | none =>
    refine (Option.eq_none_iff_forall_ne_some.2 fun price hsome => ?_).symm
    have ⟨ticker, hticker, hcode, _⟩ := hadmits
    have hc := (hmem ⟨code, ticker.industry, date, price⟩).2
      ⟨hdate, ⟨hadmits, ticker, hticker, hcode, rfl⟩, hsome⟩
    exact absurd (List.find?_eq_none.1 hfind _ (List.mem_reverse.2 hc)) (by simp)

/-- Of the tickers of an industry those without closes have no change. -/
theorem changes_perm (industry : String) {baseline latest : String} (hbaseline : baseline ∈ dates)
    (hlatest : latest ∈ dates) :
    (((tickers closes).filter (·.2 == industry)).filterMap fun ticker =>
      percentChange (price? closes ticker.1 baseline) (price? closes ticker.1 latest)).Perm
      (t.tickerChanges f industry baseline latest) := by
  have hcodesOf : (((tickers closes).filter (·.2 == industry)).map (·.1)).Nodup := by
    refine List.Nodup.sublist (List.filter_sublist.map _) ?_
    rw [codes_tickers]
    exact nodup_eraseDups _
  have hmem : ∀ code, code ∈ ((tickers closes).filter (·.2 == industry)).map (·.1) ↔
      (t.Admits f code ∧ t.InIndustry industry code) ∧
        ∃ date ∈ dates, (t.close? code date).isSome := by
    intro code
    rw [← mem_tickers htrades hcodes h, List.mem_map]
    constructor
    · rintro ⟨⟨code, other⟩, hticker, rfl⟩
      obtain ⟨hticker, hindustry⟩ := List.mem_filter.1 hticker
      rwa [← eq_of_beq hindustry]
    · exact fun hticker => ⟨_, List.mem_filter.2 ⟨hticker, beq_self_eq_true _⟩, rfl⟩
  have hprices : ((tickers closes).filter (·.2 == industry)).filterMap (fun ticker =>
      percentChange (price? closes ticker.1 baseline) (price? closes ticker.1 latest))
        = (((tickers closes).filter (·.2 == industry)).map (·.1)).filterMap fun code =>
            percentChange (t.close? code baseline) (t.close? code latest) := by
    rw [List.filterMap_map]
    refine List.filterMap_congr fun ticker hticker => ?_
    have hadmits := ((hmem ticker.1).1 (List.mem_map_of_mem hticker)).1.1
    rw [price?_eq htrades hcodes h hadmits hbaseline, price?_eq htrades hcodes h hadmits hlatest]
    rfl
  rw [hprices]
  -- The rows lack the tickers that have no close at any of the dates. Those have no change either.
  refine filterMap_perm_of_nodup hcodesOf (hcodes.filter _) fun code hsome => ?_
  have hclose : (t.close? code latest).isSome = true := by
    revert hsome
    cases t.close? code latest with
    | none => cases t.close? code baseline <;> exact id
    | some price => exact fun _ => rfl
  rw [hmem, Tables.mem_members]
  exact ⟨And.left, fun hticker => ⟨hticker, latest, hlatest, hclose⟩⟩

end Perm

end Close

namespace IndustryBreadth

variable {t : Tables} {f : Filter} {latest previous : String} {counts : List Row}

/-- Every industry has one row of counts at most. -/
theorem count_perm (h : counts.Perm (t.countRows f latest previous)) (industry column : String) :
    count counts industry column = count (t.countRows f latest previous) industry column := by
  rw [count, count, findRev?_perm h fun r hr s hs hrow hrow' => ?_]
  obtain ⟨name, -, rfl⟩ := List.mem_map.1 (h.mem_iff.1 hr)
  obtain ⟨name', -, rfl⟩ := List.mem_map.1 (h.mem_iff.1 hs)
  have hname : name = industry := Option.some.inj (eq_of_beq hrow)
  have hname' : name' = industry := Option.some.inj (eq_of_beq hrow')
  rw [hname, hname']

/-- The mean is taken over the given changes, in some order. -/
def Averages (changes : List Float) (x : Option Float) : Prop :=
  ∃ l : List Float, l.Perm changes ∧ x = mean l

/-- The same industry with its colour and its counts, and with means over the same changes. -/
structure SameBreadth (t : Tables) (f : Filter) (s : BreadthSessions) (x y : IndustryBreadth) :
    Prop where
  industry : x.industry = y.industry
  color : x.color = y.color
  increase : x.increase = y.increase
  decrease : x.decrease = y.decrease
  equal : x.equal = y.equal
  high : x.high = y.high
  low : x.low = y.low
  dayChange : Averages (t.tickerChanges f x.industry s.previous s.latest) x.dayChange ∧
    Averages (t.tickerChanges f x.industry s.previous s.latest) y.dayChange
  weekChange : Averages (t.tickerChanges f x.industry s.week s.latest) x.weekChange ∧
    Averages (t.tickerChanges f x.industry s.week s.latest) y.weekChange
  monthChange : Averages (t.tickerChanges f x.industry s.month s.latest) x.monthChange ∧
    Averages (t.tickerChanges f x.industry s.month s.latest) y.monthChange

theorem SameBreadth.of_common {t : Tables} {f : Filter} {s : BreadthSessions}
    {x y z : IndustryBreadth} (hx : SameBreadth t f s x z) (hy : SameBreadth t f s y z) :
    SameBreadth t f s x y := by
  have hindustry := hx.industry.trans hy.industry.symm
  refine ⟨hindustry, hx.color.trans hy.color.symm, hx.increase.trans hy.increase.symm,
    hx.decrease.trans hy.decrease.symm, hx.equal.trans hy.equal.symm, hx.high.trans hy.high.symm,
    hx.low.trans hy.low.symm, ⟨hx.dayChange.1, ?_⟩, ⟨hx.weekChange.1, ?_⟩,
    ⟨hx.monthChange.1, ?_⟩⟩ <;> rw [hindustry]
  · exact hy.dayChange.1
  · exact hy.weekChange.1
  · exact hy.monthChange.1

theorem forall₂_of_common {s : BreadthSessions} {l m n : List IndustryBreadth}
    (hl : List.Forall₂ (SameBreadth t f s) l n) (hm : List.Forall₂ (SameBreadth t f s) m n) :
    List.Forall₂ (SameBreadth t f s) l m := by
  induction hl generalizing m with
  | nil =>
    cases hm
    exact .nil
  | cons hx _ ih =>
    cases hm with
    | cons hy hm => exact .cons (hx.of_common hy) (ih hm)

section Perm

variable {s : BreadthSessions} {closes : List Row}
  (htrades : (t.trades.map fun r => (r.code, r.date)).Nodup)
  (hcodes : (t.tickers.map (·.code)).Nodup)
  (hcounts : counts.Perm (t.countRows f s.latest s.previous))
  (hcloses : closes.Perm (t.closeRows f [s.latest, s.previous, s.week, s.month]))

include htrades hcodes hcounts hcloses

theorem industries_perm : industries counts (closes.filterMap Close.ofRow?)
    = industries (t.countRows f s.latest s.previous)
        (t.closes f [s.latest, s.previous, s.week, s.month]) := by
  refine eraseReps_mergeSort_le fun industry => ?_
  simp only [List.mem_append, List.mem_map, Prod.exists, exists_eq_right,
    (hcounts.filterMap (·.text? "industry")).mem_iff,
    Close.mem_tickers htrades hcodes (hcloses.filterMap Close.ofRow?),
    Close.mem_tickers htrades hcodes (.refl _)]

/-- However its rows come, breadth has the same industries in the same order. -/
theorem forall₂_breadth : List.Forall₂ (SameBreadth t f s) (ofRows counts closes s)
    (ofRows (t.countRows f s.latest s.previous)
      (t.closeRows f [s.latest, s.previous, s.week, s.month]) s) := by
  have hmean : ∀ {rows : List Row},
      rows.Perm (t.closeRows f [s.latest, s.previous, s.week, s.month]) →
      ∀ industry, ∀ baseline ∈ [s.latest, s.previous, s.week, s.month],
        Averages (t.tickerChanges f industry baseline s.latest)
          (meanChange (rows.filterMap Close.ofRow?) industry s.latest baseline) :=
    fun hrows industry baseline hbaseline => ⟨_, Close.changes_perm htrades hcodes
      (hrows.filterMap Close.ofRow?) industry hbaseline List.mem_cons_self, rfl⟩
  have hmeans := fun industry baseline hbaseline =>
    And.intro (hmean hcloses industry baseline hbaseline)
      (hmean (.refl _) industry baseline hbaseline)
  have hindustries := industries_perm htrades hcodes hcounts hcloses
  simp only [ofRows, hindustries]
  rw [List.forall₂_map_left_iff, List.forall₂_map_right_iff]
  refine List.forall₂_same.2 fun industry _ => ?_
  exact {
    industry := rfl
    color := rfl
    increase := count_perm hcounts industry _
    decrease := count_perm hcounts industry _
    equal := count_perm hcounts industry _
    high := count_perm hcounts industry _
    low := count_perm hcounts industry _
    dayChange := hmeans industry _ (by simp)
    weekChange := hmeans industry _ (by simp)
    monthChange := hmeans industry _ (by simp) }

end Perm

end IndustryBreadth

end Bourse
