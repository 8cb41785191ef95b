import Bourse.Proofs.Desk.Breadth
import Bourse.Proofs.Desk.Rankings
import Bourse.Proofs.Desk.Samples
import Bourse.Proofs.Number.Comparison
import Bourse.Proofs.Tables.Pairings

/-!
# Breadth of the market

What the breadth of the market says, by the tables alone. The sessions that it compares are told by
the set of dates (`BreadthDates.Of`), and they are found when there are five sessions and one a
month back (`exists_breadthDates_iff`). There is one entry for each industry with something to say,
in ascending order (`IsBreadth`), and an entry counts and averages over the tickers of its industry
(`IndustryBreadth.Of`). Over an empty cache that is what a desk answers (`marketBreadth_resolved`).
-/

namespace Bourse

/-- The sessions that breadth compares. -/
structure BreadthDates where
  latest : Date
  previous : Date
  week : Date
  month : Date

/-- The sessions of breadth in a table with the dates of `S`: the latest one, the second latest one,
the fifth latest one, and the latest one up to a month before. -/
structure BreadthDates.Of (S : Finset Date) (s : BreadthDates) : Prop where
  recent : RecentSessions.Of S ⟨s.latest, s.week⟩
  previous : IsGreatest {d | d ∈ S ∧ d < s.latest} s.previous
  month : IsGreatest {d | d ∈ S ∧ s.latest.MonthBefore d} s.month

def BreadthDates.texts (s : BreadthDates) : BreadthSessions :=
  ⟨s.latest.iso, s.previous.iso, s.week.iso, s.month.iso⟩

section Sessions

open Analysis

variable {S : Finset Date}

theorem RecentSessions.Of.unique {r r' : RecentSessions} (h : r.Of S) (h' : r'.Of S) : r = r' := by
  have hfive := eq_of_card_filter h.lastFive h'.lastFive
  have hlatest := h.latest.unique h'.latest
  cases r
  cases r'
  simp_all only

theorem RecentSessions.Of.five_le {r : RecentSessions} (h : r.Of S) : 5 ≤ S.card := by
  obtain ⟨hlt, -⟩ := List.getElem?_eq_some_iff.1 (getElem?_descending_iff.2 h.lastFive)
  rwa [length_descending] at hlt

/-- Of five sessions the latest one has one before it. -/
theorem exists_breadthDates_iff : (∃ s : BreadthDates, s.Of S) ↔
    ∃ r : RecentSessions, r.Of S ∧ ∃ d ∈ S, r.latest.MonthBefore d := by
  constructor
  · rintro ⟨s, hs⟩
    exact ⟨_, hs.recent, s.month, hs.month.1⟩
  · rintro ⟨r, hr, hmonth⟩
    obtain ⟨previous, hprevious⟩ := exists_find?_descending (p := (· < r.latest))
      ⟨r.lastFive, hr.lastFive.1, lt_of_card_filter hr.lastFive.2 hr.latest⟩
    obtain ⟨month, hmonth⟩ := exists_find?_descending hmonth
    exact ⟨⟨r.latest, previous, r.lastFive, month⟩, hr, find?_descending_iff.1 hprevious,
      find?_descending_iff.1 hmonth⟩

variable (desk : Desk) {t : Tables} (h : t.Dated .trades S) (hyear : ∀ d ∈ S, 1 ≤ d.year)

include h

theorem plain_recentSessions_iff {r : RecentSessions} :
    plain t (desk.recentSessions .trades) = .ok r ↔ r.Of S := by
  rw [Desk.recentSessions, plain_getOrComputeFor, plain_bind]
  change RecentSessions.ofRows .trades (t.recentRows .trades) = .ok r ↔ _
  refine ⟨fun hr => (of_recentRows h hr).2, fun hr => ?_⟩
  obtain ⟨r', hr', heq⟩ := (recentSessions_outcome h).1 hr.five_le
  rw [heq, hr.unique hr']

include hyear

/-- A desk compares these sessions when nothing is cached. -/
theorem plain_breadthSessions_iff {x : BreadthSessions} :
    plain t desk.breadthSessions = .ok x ↔ ∃ s : BreadthDates, s.Of S ∧ x = s.texts := by
  have hback : ∀ {r : RecentSessions}, r.Of S → ∀ d,
      (plain t (desk.nearestSession .trades ((r.latest.addDays? (-1)).getD r.latest)) = .ok d ↔
        IsGreatest {d | d ∈ S ∧ d < r.latest} d) ∧
      (plain t (desk.nearestSession .trades ((r.latest.subMonths? 1).getD r.latest)) = .ok d ↔
        IsGreatest {d | d ∈ S ∧ r.latest.MonthBefore d} d) := by
    intro r hr d
    have hlatest := hr.latest.1
    obtain ⟨e, he, heyear, hle⟩ := dayBack_eq ⟨hyear _ hlatest, (h.year_mem _ hlatest).2⟩
    obtain ⟨e', he', heyear', hle'⟩ := monthBack_eq ⟨hyear _ hlatest, (h.year_mem _ hlatest).2⟩
    rw [he, he', Option.getD_some, Option.getD_some, plain_nearestSession_iff desk h heyear,
      plain_nearestSession_iff desk h heyear']
    simp only [hle, hle', and_self]
  rw [Desk.breadthSessions]
  constructor
  · intro hx
    obtain ⟨r, hr, hx⟩ := of_plain_bind hx
    obtain ⟨previous, hprevious, hx⟩ := of_plain_bind hx
    obtain ⟨month, hmonth, hx⟩ := of_plain_bind hx
    have hr := (plain_recentSessions_iff desk h).1 hr
    exact ⟨⟨r.latest, previous, r.lastFive, month⟩, ⟨hr, ((hback hr _).1).1 hprevious,
      ((hback hr _).2).1 hmonth⟩, (Except.ok.inj hx).symm⟩
  · rintro ⟨s, hs, rfl⟩
    rw [plain_bind, (plain_recentSessions_iff desk h).2 hs.recent]
    change plain t (desk.nearestSession .trades _ >>= _) = _
    rw [plain_bind, ((hback hs.recent _).1).2 hs.previous]
    change plain t (desk.nearestSession .trades _ >>= _) = _
    rw [plain_bind, ((hback hs.recent _).2).2 hs.month]
    rfl

end Sessions

/-- What the breadth of an industry says of its tickers: how many closed higher, lower and level at
the latest session, how many closed at their limits, and their mean changes. -/
structure IndustryBreadth.Of (t : Tables) (f : Filter) (s : BreadthSessions) (x : IndustryBreadth) :
    Prop where
  color : x.color = Industry.color x.industry
  increase : x.increase = .ofNat ((t.members f x.industry).countP fun code =>
    Tables.holds (fun a b => b < a) (t.close? code s.latest) (t.close? code s.previous))
  decrease : x.decrease = .ofNat ((t.members f x.industry).countP fun code =>
    Tables.holds (fun a b => a < b) (t.close? code s.latest) (t.close? code s.previous))
  equal : x.equal = .ofNat ((t.members f x.industry).countP fun code =>
    Tables.holds (· == ·) (t.close? code s.latest) (t.close? code s.previous))
  closed : x.increase + x.decrease + x.equal = .ofNat ((t.members f x.industry).countP fun code =>
    (t.close? code s.latest).isSome && (t.close? code s.previous).isSome)
  high : x.high = .ofNat ((t.members f x.industry).countP
    (t.related s.latest s.previous fun l _ => Tables.holds (fun a b => b ≤ a) l.close l.ceiling))
  low : x.low = .ofNat ((t.members f x.industry).countP
    (t.related s.latest s.previous fun l _ => Tables.holds (fun a b => a ≤ b) l.close l.floor))
  dayChange : Averages (t.tickerChanges f x.industry s.previous s.latest) x.dayChange ∧
    (x.dayChange = none ↔ t.tickerChanges f x.industry s.previous s.latest = [])
  weekChange : Averages (t.tickerChanges f x.industry s.week s.latest) x.weekChange ∧
    (x.weekChange = none ↔ t.tickerChanges f x.industry s.week s.latest = [])
  monthChange : Averages (t.tickerChanges f x.industry s.month s.latest) x.monthChange ∧
    (x.monthChange = none ↔ t.tickerChanges f x.industry s.month s.latest = [])

/-- The entries of breadth: one for each industry with an admitted ticker that has trades at the
latest and at the previous session, or a close at one of the compared sessions. -/
structure IsBreadth (t : Tables) (f : Filter) (s : BreadthSessions)
    (breadth : List IndustryBreadth) : Prop where
  ordered : breadth.Pairwise fun x y => x.industry < y.industry
  mem_iff : ∀ industry, industry ∈ breadth.map (·.industry) ↔ ∃ code,
    (t.Admits f code ∧ t.InIndustry industry code) ∧
      ((t.tradeAt? code s.latest).isSome ∧ (t.tradeAt? code s.previous).isSome ∨
        ∃ date ∈ [s.latest, s.previous, s.week, s.month], (t.close? code date).isSome)
  entries : ∀ x ∈ breadth, x.Of t f s

namespace IndustryBreadth

theorem Averages.eq_none_iff {changes : List Float} {x : Option Float} (h : Averages changes x) :
    x = none ↔ changes = [] := by
  obtain ⟨l, hperm, rfl⟩ := h
  cases l with
  | nil => exact iff_of_true rfl (List.nil_perm.1 hperm)
  | cons a l =>
    refine iff_of_false (Option.some_ne_none _) ?_
    rintro rfl
    cases List.perm_nil.1 hperm

variable {t : Tables} {f : Filter} {latest previous : String}
  (htrades : (t.trades.map fun r => (r.code, r.date)).Nodup)
  (hcodes : (t.tickers.map (·.code)).Nodup)

include htrades hcodes

/-- A count of an industry is that of its tickers. -/
theorem count_countRows (column : String) (p : Trade → Trade → Bool)
    (hcolumn : ∀ industry pairs, (Tables.countRow industry pairs).int? column
      = some (.ofNat (pairs.countP fun pair => p pair.latest pair.previous))) (industry : String) :
    count (t.countRows f latest previous) industry column
      = .ofNat ((t.members f industry).countP (t.related latest previous p)) := by
  rw [← Tables.countP_pairings htrades hcodes, count, List.findRev?_eq_find?_reverse]
  cases hfind : (t.countRows f latest previous).reverse.find? fun r =>
      r.text? "industry" == some industry with
  | some r =>
    obtain ⟨name, -, rfl⟩ := List.mem_map.1
      (List.mem_reverse.1 (List.mem_of_find?_eq_some hfind))
    have hname := List.find?_some hfind
    change (some name == some industry) = true at hname
    rw [Option.some.inj (eq_of_beq hname), Option.bind_some, hcolumn, Option.getD_some]
  | none =>
    have hnone : (t.pairings f latest previous).filter (·.industry == industry) = [] := by
      refine List.filter_eq_nil_iff.2 fun pair hpair hindustry => ?_
      have hrow := List.find?_eq_none.1 hfind (Tables.countRow pair.industry
        ((t.pairings f latest previous).filter (·.industry == pair.industry)))
      refine hrow ?_ (eq_of_beq hindustry ▸ beq_self_eq_true (some pair.industry))
      exact List.mem_reverse.2 (List.mem_map_of_mem
        (mem_eraseReps.2 (List.mem_mergeSort.2 (List.mem_map_of_mem hpair))))
    rw [hnone]
    rfl

omit htrades hcodes in
/-- A comparison of closes is one of what the ticker closed at. -/
theorem related_closes (relation : Float → Float → Bool) :
    t.related latest previous (fun l q => Tables.holds relation l.close q.close)
      = fun code => Tables.holds relation (t.close? code latest) (t.close? code previous) := by
  funext code
  unfold Tables.related Tables.close?
  cases t.tradeAt? code latest with
  | none => rfl
  | some l =>
    cases t.tradeAt? code previous with
    | none => cases hl : l.close <;> simp [Tables.holds, hl]
    | some q => rfl

omit htrades hcodes in
theorem countP_add_eq {α : Type} {p q r s : α → Bool} : ∀ {l : List α},
    (∀ a ∈ l, (p a).toNat + (q a).toNat + (r a).toNat = (s a).toNat) →
      l.countP p + l.countP q + l.countP r = l.countP s
  | [], _ => rfl
  | a :: l, h => by
    have ih := countP_add_eq fun b hb => h b (List.mem_cons_of_mem a hb)
    have ha := h a List.mem_cons_self
    have hcons : ∀ p : α → Bool, (a :: l).countP p = l.countP p + (p a).toNat := by
      intro p
      rw [List.countP_cons]
      cases p a <;> rfl
    rw [hcons, hcons, hcons, hcons]
    omega

variable (hnumbers : ∀ r ∈ t.trades, Tables.kept r.close = r.close)

include hnumbers

omit hcodes in
/-- Of two closes of a ticker one comparison holds. -/
theorem closed_once (code : String) :
    (Tables.holds (fun a b => b < a) (t.close? code latest) (t.close? code previous)).toNat
      + (Tables.holds (fun a b => a < b) (t.close? code latest) (t.close? code previous)).toNat
      + (Tables.holds (· == ·) (t.close? code latest) (t.close? code previous)).toNat
      = ((t.close? code latest).isSome && (t.close? code previous).isSome).toNat := by
  have hnumber : ∀ {date x}, t.close? code date = some x → x.isNaN = false := by
    intro date x hx
    obtain ⟨r, hr, -, hclose⟩ := (Tables.close?_eq_some_iff htrades).1 hx
    have hkept := hnumbers r hr
    rw [hclose, Tables.kept, Option.filter_eq_some_iff] at hkept
    simpa using hkept.2
  cases hx : t.close? code latest with
  | none => rfl
  | some x =>
    cases hy : t.close? code previous with
    | none => rfl
    | some y => exact Number.compared_once (hnumber hx) (hnumber hy)

/-- The entry of an industry is told from the trades of its tickers. -/
theorem of_ofParts (s : BreadthSessions) (industry : String) :
    (ofParts (t.countRows f s.latest s.previous)
      (t.closes f [s.latest, s.previous, s.week, s.month]) s industry).Of t f s := by
  have hcount : ∀ (column : String) (relation : Float → Float → Bool),
      (∀ industry pairs, (Tables.countRow industry pairs).int? column = some (.ofNat
        (pairs.countP fun pair => Tables.holds relation pair.latest.close pair.previous.close))) →
      count (t.countRows f s.latest s.previous) industry column
        = .ofNat ((t.members f industry).countP fun code =>
            Tables.holds relation (t.close? code s.latest) (t.close? code s.previous)) := by
    intro column relation hcolumn
    rw [← related_closes]
    exact count_countRows htrades hcodes column _ hcolumn industry
  have hmean : ∀ baseline ∈ [s.latest, s.previous, s.week, s.month],
      Averages (t.tickerChanges f industry baseline s.latest) (meanChange
        (t.closes f [s.latest, s.previous, s.week, s.month]) industry s.latest baseline) :=
    fun baseline hbaseline => ⟨_, Close.changes_perm htrades hcodes (.refl _) industry hbaseline
      List.mem_cons_self, rfl⟩
  have hincrease := hcount "increase" _ fun _ _ => rfl
  have hdecrease := hcount "decrease" _ fun _ _ => rfl
  have hequal := hcount "equal" _ fun _ _ => rfl
  have hday := hmean s.previous (by simp)
  have hweek := hmean s.week (by simp)
  have hmonth := hmean s.month (by simp)
  exact {
    color := rfl
    increase := hincrease
    decrease := hdecrease
    equal := hequal
    closed := by
      change count _ _ _ + count _ _ _ + count _ _ _ = _
      rw [hincrease, hdecrease, hequal, ← Int64.ofNat_add, ← Int64.ofNat_add,
        countP_add_eq fun code _ => closed_once htrades hnumbers code]
      rfl
    high := count_countRows htrades hcodes "high"
      (fun l _ => Tables.holds (fun a b => b ≤ a) l.close l.ceiling) (fun _ _ => rfl) industry
    low := count_countRows htrades hcodes "low"
      (fun l _ => Tables.holds (fun a b => a ≤ b) l.close l.floor) (fun _ _ => rfl) industry
    dayChange := ⟨hday, hday.eq_none_iff⟩
    weekChange := ⟨hweek, hweek.eq_none_iff⟩
    monthChange := ⟨hmonth, hmonth.eq_none_iff⟩ }

omit hnumbers in
theorem mem_names_countRows {industry : String} :
    industry ∈ (t.countRows f latest previous).filterMap (·.text? "industry") ↔
      ∃ code ∈ t.members f industry,
        (t.tradeAt? code latest).isSome ∧ (t.tradeAt? code previous).isSome := by
  have hnames : (t.countRows f latest previous).filterMap (·.text? "industry")
      = (((t.pairings f latest previous).map (·.industry)).mergeSort
          fun a b => a ≤ b).eraseReps := by
    rw [Tables.countRows, List.filterMap_map]
    exact List.filterMap_some
  rw [hnames, mem_eraseReps, List.mem_mergeSort, List.mem_map]
  constructor
  · rintro ⟨pair, hpair, rfl⟩
    obtain ⟨hmember, hl, hq⟩ := (Tables.mem_pairings htrades hcodes).1 hpair
    exact ⟨_, hmember, Option.isSome_of_eq_some hl, Option.isSome_of_eq_some hq⟩
  · rintro ⟨code, hmember, hl, hq⟩
    obtain ⟨l, hl⟩ := Option.isSome_iff_exists.1 hl
    obtain ⟨q, hq⟩ := Option.isSome_iff_exists.1 hq
    obtain ⟨-, rfl, -⟩ := (Tables.tradeAt?_eq_some_iff htrades).1 hl
    exact ⟨⟨industry, l, q⟩, (Tables.mem_pairings htrades hcodes).2 ⟨hmember, hl, hq⟩, rfl⟩

/-- What breadth makes of its rows has an entry for each industry with something to say. -/
theorem isBreadth_ofRows (s : BreadthSessions) :
    IsBreadth t f s (ofRows (t.countRows f s.latest s.previous)
      (t.closeRows f [s.latest, s.previous, s.week, s.month]) s) := by
  have hindustries : (ofRows (t.countRows f s.latest s.previous)
      (t.closeRows f [s.latest, s.previous, s.week, s.month]) s).map (·.industry)
        = industries (t.countRows f s.latest s.previous)
            (t.closes f [s.latest, s.previous, s.week, s.month]) := by
    rw [ofRows, List.map_map]
    exact List.map_id _
  refine ⟨?_, fun industry => ?_, fun x hx => ?_⟩
  · rw [← List.pairwise_map, hindustries]
    exact pairwise_eraseReps_mergeSort_le _
  · rw [hindustries, industries, mem_eraseReps, List.mem_mergeSort, List.mem_append,
      mem_names_countRows htrades hcodes]
    simp only [Tables.mem_members, List.mem_map, Prod.exists, exists_eq_right,
      Close.mem_tickers htrades hcodes (.refl _), and_or_left, exists_or]
  · obtain ⟨industry, -, rfl⟩ := List.mem_map.1 hx
    exact of_ofParts htrades hcodes hnumbers s industry

end IndustryBreadth

namespace Desk

open Analysis

variable (desk : Desk) {t : Tables} (f : Filter) {S : Finset Date}

/-- Over an empty cache breadth is what is made of the rows of its two statements. -/
theorem run_marketBreadth (delay : Backend → ℕ) (purgeEvery now : ℕ) :
    ((desk.marketBreadth f).run.run (Backend.timed delay) (emptyBackend t purgeEvery now)).1
      = plain t desk.breadthSessions >>= fun s => .ok (IndustryBreadth.ofRows
          (t.countRows f s.latest s.previous)
          (t.closeRows f [s.latest, s.previous, s.week, s.month]) s) := by
  have hcomputation : Transparent t (desk.truth t) Eq _ := transparent_iff.2 fun delay =>
    steady_breadth desk t f (c := .calm delay) Eq (fun _ _ => rfl)
      fun _ _ _ _ hcounts hcloses => by rw [hcounts, hcloses]
  rw [marketBreadth, Gateway.getOrCompute, desk.run_kept hcomputation, plain_bind]
  rfl

/-- A desk answers the breadth of the market when its table has five sessions and one up to a month
before the latest, and then it compares these sessions. -/
theorem marketBreadth_resolved (h : t.Dated .trades S) (hyear : ∀ d ∈ S, 1 ≤ d.year)
    (htrades : (t.trades.map fun r => (r.code, r.date)).Nodup)
    (hcodes : (t.tickers.map (·.code)).Nodup)
    (hnumbers : ∀ r ∈ t.trades, Tables.kept r.close = r.close) (delay : Backend → ℕ)
    (purgeEvery now : ℕ) :
    let answer := ((desk.marketBreadth f).run.run (Backend.timed delay)
      (emptyBackend t purgeEvery now)).1
    ((∃ breadth, answer = .ok breadth) ↔
      ∃ r : RecentSessions, r.Of S ∧ ∃ d ∈ S, r.latest.MonthBefore d) ∧
    ∀ breadth, answer = .ok breadth →
      ∃ s : BreadthDates, s.Of S ∧ IsBreadth t f s.texts breadth := by
  intro answer
  have hsessions := fun x => plain_breadthSessions_iff desk h hyear (x := x)
  have hanswer : answer = _ := run_marketBreadth desk f delay purgeEvery now
  refine ⟨?_, fun breadth hbreadth => ?_⟩
  · rw [← exists_breadthDates_iff, hanswer]
    constructor
    · rintro ⟨breadth, hbreadth⟩
      obtain ⟨x, hx, -⟩ := of_bind_eq_ok hbreadth
      obtain ⟨s, hs, -⟩ := (hsessions x).1 hx
      exact ⟨s, hs⟩
    · rintro ⟨s, hs⟩
      rw [(hsessions s.texts).2 ⟨s, hs, rfl⟩]
      exact ⟨_, rfl⟩
  · rw [hanswer] at hbreadth
    obtain ⟨x, hx, hbreadth⟩ := of_bind_eq_ok hbreadth
    obtain ⟨s, hs, rfl⟩ := (hsessions x).1 hx
    refine ⟨s, hs, ?_⟩
    rw [← Except.ok.inj hbreadth]
    exact IndustryBreadth.isBreadth_ofRows htrades hcodes hnumbers s.texts

end Desk

theorem marketBreadth_resolved_sample :
    anchorTables.Dated .trades anchorDates ∧ (∀ d ∈ anchorDates, 1 ≤ d.year) ∧
      (anchorTables.trades.map fun r => (r.code, r.date)).Nodup ∧
      (anchorTables.tickers.map (·.code)).Nodup ∧
      (∀ r ∈ anchorTables.trades, Tables.kept r.close = r.close) ∧
      ∃ breadth, ((anchorDesk.marketBreadth banksOnHose).run.run (Backend.timed fun _ => 700)
          (Desk.emptyBackend anchorTables 3 0)).1 = .ok breadth ∧
        ∃ s : BreadthDates, s.Of anchorDates ∧
          IsBreadth anchorTables banksOnHose s.texts breadth := by
  have hyear : ∀ d ∈ anchorDates, 1 ≤ d.year := by decide
  have htrades : (anchorTables.trades.map fun r => (r.code, r.date)).Nodup := by decide
  have hcodes : (anchorTables.tickers.map (·.code)).Nodup := by decide
  have hnumbers : ∀ r ∈ anchorTables.trades, Tables.kept r.close = r.close := by decide
  have hrecent : RecentSessions.Of anchorDates ⟨anchorSessions.latest, anchorSessions.lastFive⟩ :=
    ⟨anchorSessions_of.latest, anchorSessions_of.lastFive⟩
  obtain ⟨hresolved, hbreadth⟩ := Desk.marketBreadth_resolved anchorDesk banksOnHose
    anchorTables_dated hyear htrades hcodes hnumbers (fun _ => 700) 3 0
  obtain ⟨breadth, hanswer⟩ := hresolved.2 ⟨_, hrecent, sampleDay 2022 12 30, by decide⟩
  exact ⟨anchorTables_dated, hyear, htrades, hcodes, hnumbers, breadth, hanswer,
    hbreadth breadth hanswer⟩

end Bourse
