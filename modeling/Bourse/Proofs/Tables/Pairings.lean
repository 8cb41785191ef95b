import Bourse.Proofs.Tables.Sums

/-!
# Paired trades

The trades of one ticker at two dates. There is one pair for each admitted ticker with a trade at
both (`Tables.mem_pairings`), since no ticker trades twice at one date, so counting the pairs of an
industry counts its tickers (`Tables.countP_pairings`).
-/

namespace Bourse

namespace Tables

variable (t : Tables) (f : Filter)

/-- The trade of a ticker at a date. -/
def tradeAt? (code date : String) : Option Trade :=
  t.trades.find? fun r => (r.code, r.date) = (code, date)

/-- The codes of the tickers of an industry that the filter admits. -/
def members (industry : String) : List String :=
  (t.tickers.map (·.code)).filter fun code => t.Admits f code ∧ t.InIndustry industry code

/-- Whether a ticker has trades at two dates, and they are related. -/
def related (latest previous : String) (p : Trade → Trade → Bool) (code : String) : Bool :=
  match t.tradeAt? code latest, t.tradeAt? code previous with
  | some l, some q => p l q
  | _, _ => false

variable {t f} {latest previous industry : String}

theorem related_eq_true {p : Trade → Trade → Bool} {code : String} :
    t.related latest previous p code = true ↔
      ∃ l q, t.tradeAt? code latest = some l ∧ t.tradeAt? code previous = some q ∧
        p l q = true := by
  unfold related
  split
  · next l q hl hq => simp [hl, hq]
  · next hnone =>
    refine iff_of_false Bool.false_ne_true ?_
    rintro ⟨l, q, hl, hq, -⟩
    exact hnone l q hl hq

theorem mem_members {code : String} :
    code ∈ t.members f industry ↔ t.Admits f code ∧ t.InIndustry industry code := by
  rw [members, List.mem_filter, decide_eq_true_eq, and_iff_right_iff_imp]
  rintro ⟨⟨ticker, hticker, rfl, -⟩, -⟩
  exact List.mem_map_of_mem hticker

variable (htrades : (t.trades.map fun r => (r.code, r.date)).Nodup)

include htrades

theorem tradeAt?_eq_some_iff {code date : String} {r : Trade} :
    t.tradeAt? code date = some r ↔ r ∈ t.trades ∧ r.code = code ∧ r.date = date := by
  rw [tradeAt?, find?_key_eq_some htrades, Prod.mk.injEq]

/-- A trade at the latest date is paired with the one at the previous date, if any. -/
theorem pairings_eq : t.pairings f latest previous
    = (t.trades.filter (·.date == latest)).filterMap fun l =>
        (t.tradeAt? l.code previous).bind fun q =>
          (t.admitted? f l.code).map fun ticker => ⟨ticker.industry, l, q⟩ := by
  rw [pairings, List.filterMap_eq_flatMap_toList]
  refine List.flatMap_congr fun l _ => ?_
  have hfilter : t.trades.filter (fun q => q.code == l.code && q.date == previous)
      = (t.tradeAt? l.code previous).toList := by
    rw [tradeAt?, ← filter_key_eq_toList htrades]
    refine List.filter_congr fun q _ => ?_
    rw [Bool.eq_iff_iff, decide_eq_true_iff, Prod.mk.injEq, Bool.and_eq_true, beq_iff_eq,
      beq_iff_eq]
  rw [hfilter]
  cases t.tradeAt? l.code previous with
  | none => rfl
  | some q => cases t.admitted? f l.code <;> rfl

theorem nodup_pairings : ((t.pairings f latest previous).map (·.latest.code)).Nodup := by
  have hlatest : ((t.trades.filter (·.date == latest)).map (·.code)).Nodup := by
    refine List.pairwise_map.2 (((List.pairwise_map.1 htrades).filter _).imp_of_mem ?_)
    intro l m hl hm hne hcode
    have hdate := eq_of_beq (List.mem_filter.1 hl).2
    have hdate' := eq_of_beq (List.mem_filter.1 hm).2
    exact hne (Prod.ext hcode (hdate.trans hdate'.symm))
  rw [pairings_eq htrades]
  refine hlatest.sublist (map_filterMap_sublist (fun l p hp => ?_) _)
  obtain ⟨q, -, hp⟩ := Option.bind_eq_some_iff.1 hp
  obtain ⟨ticker, -, rfl⟩ := Option.map_eq_some_iff.1 hp
  rfl

variable (hcodes : (t.tickers.map (·.code)).Nodup)

include hcodes

/-- The pairs are those of the trades of an admitted ticker at both dates. -/
theorem mem_pairings {p : Pairing} : p ∈ t.pairings f latest previous ↔
    p.latest.code ∈ t.members f p.industry ∧ t.tradeAt? p.latest.code latest = some p.latest ∧
      t.tradeAt? p.latest.code previous = some p.previous := by
  rw [pairings_eq htrades, List.mem_filterMap, mem_members, ← industry_admitted? hcodes,
    tradeAt?_eq_some_iff htrades]
  simp only [List.mem_filter, beq_iff_eq, Option.bind_eq_some_iff, Option.map_eq_some_iff]
  constructor
  · rintro ⟨l, hl, q, hq, ticker, hticker, rfl⟩
    exact ⟨⟨ticker, hticker, rfl⟩, ⟨hl.1, trivial, hl.2⟩, hq⟩
  · rintro ⟨⟨ticker, hticker, hindustry⟩, ⟨hl, -, hdate⟩, hq⟩
    exact ⟨p.latest, ⟨hl, hdate⟩, p.previous, hq, ticker, hticker, by rw [hindustry]⟩

/-- Counting pairs of an industry counts its tickers. -/
theorem countP_pairings (p : Trade → Trade → Bool) (industry : String) :
    ((t.pairings f latest previous).filter (·.industry == industry)).countP
        (fun pair => p pair.latest pair.previous)
      = (t.members f industry).countP (t.related latest previous p) := by
  have hmembers : (t.members f industry).Nodup := hcodes.filter _
  have hperm : ((((t.pairings f latest previous).filter (·.industry == industry)).filter fun pair =>
      p pair.latest pair.previous).map (·.latest.code)).Perm
        ((t.members f industry).filter (t.related latest previous p)) := by
    refine (List.perm_ext_iff_of_nodup ?_ (hmembers.filter _)).2 fun code => ?_
    · exact (nodup_pairings htrades).sublist
        ((List.filter_sublist.trans List.filter_sublist).map _)
    · simp only [List.mem_map, List.mem_filter, mem_pairings htrades hcodes, beq_iff_eq,
        related_eq_true]
      constructor
      · rintro ⟨pair, ⟨⟨⟨hmember, hl, hq⟩, rfl⟩, hp⟩, rfl⟩
        exact ⟨hmember, _, _, hl, hq, hp⟩
      · rintro ⟨hmember, l, q, hl, hq, hp⟩
        obtain ⟨-, rfl, -⟩ := (tradeAt?_eq_some_iff htrades).1 hl
        exact ⟨⟨industry, l, q⟩, ⟨⟨⟨hmember, hl, hq⟩, rfl⟩, hp⟩, rfl⟩
  rw [List.countP_eq_length_filter, List.countP_eq_length_filter, ← hperm.length_eq,
    List.length_map]

end Tables

end Bourse
