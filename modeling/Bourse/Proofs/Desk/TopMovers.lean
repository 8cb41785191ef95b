import Bourse.Proofs.Change.Ranking
import Bourse.Proofs.Desk.Movers

/-!
# Fewer and more top movers

The tickers that moved between two sessions are ranked by their change of price
(`Tables.exists_ranking`), and the top movers are the first ones of this ranking
(`Desk.gives_topMovers`). So the fewer ones that a lesser limit gives are the start of those that a
greater one gives, though the two are kept under different keys.
-/

namespace Bourse

namespace Tables

variable (t : Tables) (f : Filter)

/-- An admitted ticker with trades in both of two sessions, one before the other. -/
structure Moves (s : RecentSessions) (code : String) : Prop where
  admits : t.Admits f code
  later : s.lastFive.iso < s.latest.iso
  latest : ∃ r ∈ t.trades, r.code = code ∧ r.date = s.latest.iso
  lastFive : ∃ r ∈ t.trades, r.code = code ∧ r.date = s.lastFive.iso

/-- The tickers that moved between two sessions, ranked by their change of price. -/
structure Ranks (s : RecentSessions) (ranking : List TopMover) : Prop where
  codes : ∀ code, code ∈ ranking.map (·.code) ↔ t.Moves f s code
  distinct : (ranking.map (·.code)).Nodup
  ordered : ranking.Pairwise (RankedBefore (·.roc5) (·.code))

/-- The changes between two sessions. -/
def movers (s : RecentSessions) : List TopMover :=
  (t.comparedRecords ⟨.trade "close_price", .ticker, f, [s.latest.iso]⟩ [s.lastFive.iso] true).map
    Desk.TopMover.ofChange

variable {t f} {s : RecentSessions}

theorem codeValues_trade_ne_nil_iff {column date code : String} {line : Option String} :
    t.codeValues (.trade column) date code line ≠ [] ↔
      line = none ∧ ∃ r ∈ t.trades, r.code = code ∧ r.date = date := by
  rw [codeValues, facts, Ne, List.map_eq_nil_iff, List.filter_eq_nil_iff]
  simp only [List.mem_map, forall_exists_index, and_imp, forall_apply_eq_imp_iff₂,
    decide_eq_true_eq, not_forall, not_not]
  constructor
  · rintro ⟨r, hr, hdate, hcode, hline⟩
    exact ⟨hline.symm, r, hr, hcode, hdate⟩
  · rintro ⟨rfl, r, hr, hcode, hdate⟩
    exact ⟨r, hr, hdate, hcode, rfl⟩

theorem mem_codes_movers {code : String} :
    code ∈ (t.movers f s).map (·.code) ↔ t.Moves f s code := by
  rw [movers, List.map_map, List.mem_map]
  simp only [mem_comparedRecords, mem_sums_ticker, List.mem_singleton, comparable_iff, if_true,
    codeValues_trade_ne_nil_iff]
  constructor
  · rintro ⟨_, ⟨c, ⟨hcdate, hadmits, ⟨-, hlatest⟩, -⟩, p, ⟨hpdate, -, ⟨-, hfive⟩, -⟩,
      ⟨hlater, hsame, -⟩, rfl⟩, rfl⟩
    rw [hcdate, hpdate] at hlater
    rw [hcdate] at hlatest
    rw [hpdate, ← hsame] at hfive
    exact ⟨hadmits, hlater, hlatest, hfive⟩
  · rintro ⟨hadmits, hlater, hlatest, hfive⟩
    let sum (date : String) : Sum :=
      ⟨date, code, none, total (t.codeValues (.trade "close_price") date code none)⟩
    exact ⟨_, ⟨sum s.latest.iso, ⟨rfl, hadmits, ⟨rfl, hlatest⟩, rfl⟩, sum s.lastFive.iso,
      ⟨rfl, hadmits, ⟨rfl, hfive⟩, rfl⟩, ⟨hlater, rfl, rfl⟩, rfl⟩, rfl⟩

theorem nodup_codes_movers : ((t.movers f s).map (·.code)).Nodup := by
  rw [movers, List.map_map]
  exact nodup_entities (allSame_singleton _) (allSame_singleton _) (allSame_singleton _)

variable (t f s) in
theorem exists_ranking : ∃ ranking, t.Ranks f s ranking ∧
    ∀ limit, rankTop limit (·.roc5) (·.code) (t.movers f s) = ranking.take (min limit 50) := by
  obtain ⟨ranking, hordered, hperm, htop⟩ :=
    exists_ranked TopMover.roc5 (nodup_codes_movers (t := t) (f := f) (s := s))
  have hcodes := hperm.map TopMover.code
  refine ⟨ranking, ⟨fun code => ?_, ?_, hordered⟩, htop⟩
  · rw [hcodes.mem_iff, mem_codes_movers]
  · exact hcodes.nodup_iff.2 nodup_codes_movers

end Tables

namespace Desk

open Analysis

variable (desk : Desk) (t : Tables) (f : Filter)

/-- The outcome for a limit, alone over an empty cache as well as among calls over one cache. -/
structure Gives (limit : ℕ) (outcome : Except Fault (List TopMover)) : Prop where
  alone : ∀ (delay : Backend → ℕ) (purgeEvery now : ℕ),
    ((desk.topMovers f limit).run.run (Backend.timed delay) (emptyBackend t purgeEvery now)).1
      = outcome
  among : ∀ (delay : Backend → ℕ) (purgeEvery now : ℕ) (calls : List Call) (i : ℕ),
    (∀ c ∈ calls, c.Made) → calls[i]? = some (.topMovers f limit) →
      (desk.answers (Backend.timed delay) calls (emptyBackend t purgeEvery now))[i]?
        = some (Payload.encode <$> outcome)

theorem gives_plain (limit : ℕ) : desk.Gives t f limit (plain t (desk.topMovers f limit)) where
  alone delay purgeEvery now := desk.run_topMovers_plain f limit delay purgeEvery now
  among delay purgeEvery now calls i hmade hcall := by
    rw [answers_eq_plain delay (fun c hc => (hmade c hc).wellFormed) (sound_emptyBackend ..),
      List.getElem?_map, hcall, Option.map_some]
    exact congrArg some (plain_map ..)

theorem clampLimit_eq (limit : ℕ) : min (clampLimit limit) 50 = min (max limit 1) 50 := by
  rw [clampLimit, topCount]
  omega

/-- Without sessions every limit fails alike, and otherwise it gives the first movers of one
ranking. -/
theorem gives_topMovers : (∃ e, ∀ limit, desk.Gives t f limit (.error e)) ∨
    ∃ s ranking, RecentSessions.ofRows .trades (t.recentRows .trades) = .ok s ∧
      t.Ranks f s ranking ∧
      ∀ limit, desk.Gives t f limit (.ok (ranking.take (min (max limit 1) 50))) := by
  have hgives := desk.gives_plain t f
  simp only [plain_topMovers] at hgives
  cases hsessions : RecentSessions.ofRows .trades (t.recentRows .trades) with
  | error e =>
    rw [hsessions] at hgives
    exact .inl ⟨e, hgives⟩
  | ok s =>
    obtain ⟨ranking, hranks, htop⟩ := t.exists_ranking f s
    refine .inr ⟨s, ranking, rfl, hranks, fun limit => ?_⟩
    have hlimit := hgives limit
    rw [hsessions] at hlimit
    rw [← clampLimit_eq, ← htop]
    exact hlimit

end Desk

/-- A ranking keeps the start of the stable ranking of its items. So the top movers for a limit are
the start of those for a greater one. -/
theorem rankTop_prefix :
    (∀ (α : Type) (value : α → Option Float) (code : α → String) (items : List α) (limit : ℕ),
      ∃ omitted : List α,
        (∀ ranking, StableRanking value code items ranking ↔
          ranking = rankTop limit value code items ++ omitted) ∧
        (rankTop limit value code items).length = min limit (min 50 items.length) ∧
        ∀ kept ∈ rankTop limit value code items, ∀ a ∈ omitted,
          ¬RankedBefore value code a kept) ∧
    ∀ (desk : Desk) (t : Tables) (f : Filter),
      (∃ e, ∀ limit, desk.Gives t f limit (.error e)) ∨
      ∃ s ranking, RecentSessions.ofRows .trades (t.recentRows .trades) = .ok s ∧
        t.Ranks f s ranking ∧
        ∀ m n, m ≤ n → ∃ fewer more, desk.Gives t f m (.ok fewer) ∧ desk.Gives t f n (.ok more) ∧
          fewer <+: more ∧ more <+: ranking ∧
          fewer.length = min (min (max m 1) 50) ranking.length := by
  refine ⟨fun α value code items limit => rankTop_append value code items limit,
    fun desk t f => (desk.gives_topMovers t f).imp_right ?_⟩
  rintro ⟨s, ranking, hs, hranks, hgives⟩
  refine ⟨s, ranking, hs, hranks, fun m n hmn => ⟨_, _, hgives m, hgives n, ?_, ?_, ?_⟩⟩
  · exact List.take_prefix_take_left (by omega)
  · exact List.take_prefix _ _
  · exact List.length_take

/-- One top mover, and as many as there are. -/
theorem rankTop_prefix_anchorTables : 1 ≤ 80 ∧ ∃ s ranking fewer more,
    RecentSessions.ofRows .trades (anchorTables.recentRows .trades) = .ok s ∧
      anchorTables.Ranks banksOnHose s ranking ∧
      anchorDesk.Gives anchorTables banksOnHose 1 (.ok fewer) ∧
      anchorDesk.Gives anchorTables banksOnHose 80 (.ok more) ∧
      fewer <+: more ∧ more <+: ranking ∧ fewer.length = 1 := by
  have hsessions : RecentSessions.ofRows .trades (anchorTables.recentRows .trades)
      = .ok ⟨anchorSessions.latest, anchorSessions.lastFive⟩ :=
    recentSessions_of_named (ofRows_eq_ok anchorTables_dated (by decide) anchorSessions_of)
  have hmoves : anchorTables.Moves banksOnHose
      ⟨anchorSessions.latest, anchorSessions.lastFive⟩ "AAA" := by
    have hadmits : anchorTables.Admits banksOnHose "AAA" := by
      rw [Tables.admits_iff]
      decide
    exact ⟨hadmits, by decide +kernel, by decide +kernel, by decide +kernel⟩
  refine ⟨by decide, ?_⟩
  rcases rankTop_prefix.2 anchorDesk anchorTables banksOnHose with
    ⟨e, herror⟩ | ⟨s, ranking, hs, hranks, hprefix⟩
  · have hrun := anchorDesk.run_topMovers banksOnHose 1 hsessions (fun _ => 0) 3 0
    cases ((herror 1).alone (fun _ => 0) 3 0).symm.trans hrun
  · obtain ⟨fewer, more, hfewer, hmore, hstart, hranking, hlength⟩ := hprefix 1 80 (by decide)
    refine ⟨s, ranking, fewer, more, hs, hranks, hfewer, hmore, hstart, hranking, ?_⟩
    obtain rfl := Except.ok.inj (hs.symm.trans hsessions)
    have hpos := List.length_pos_of_mem ((hranks.codes "AAA").2 hmoves)
    rw [List.length_map] at hpos
    omega

end Bourse
