import Bourse.Proofs.Desk.Rankings
import Bourse.Proofs.Desk.RowOrder
import Bourse.Proofs.Tables.Reports

/-!
# Changes over five sessions

The change of price over five sessions is ranked twice: in one column of the ranking of price
against the named sessions, and by itself for the top movers. Both show the same tickers with the
same changes (`valued_topMovers`). The recent sessions are found alike (`recentSessions_of_named`),
a comparison with one date has the records that one with more dates has for it
(`mem_comparedRecords_singleton`), and undefined changes come last in either ranking.
-/

namespace Bourse

/-- The dates of the rows of one anchor that are kept when only recent sessions are. -/
theorem recent_anchorRow (anchor : String) (texts : List String) :
    (((texts.map (Tables.anchorRow anchor)).filterMap SessionDates.anchorOfRow?).filter
      (·.1 == "recent")).map (·.2)
        = if anchor = "recent" then texts.filterMap Date.readStart else [] := by
  induction texts with
  | nil => split_ifs <;> rfl
  | cons text texts ih =>
    rw [List.map_cons, List.filterMap_cons, SessionDates.anchorOfRow?_eq]
    cases hd : Date.readStart text with
    | none => simpa [hd] using ih
    | some d => by_cases hanchor : anchor = "recent" <;> simpa [hd, hanchor] using ih

/-- A table whose named sessions are found has the same latest and fifth latest session. -/
theorem recentSessions_of_named {t : Tables} {table : SessionTable} {targets : SessionTargets}
    {s : SessionDates} (h : SessionDates.ofRows table (t.anchorRows table targets) = .ok s) :
    RecentSessions.ofRows table (t.recentRows table) = .ok ⟨s.latest, s.lastFive⟩ := by
  have hrecent : (((t.anchorRows table targets).filterMap SessionDates.anchorOfRow?).filter
      (·.1 == "recent")).map (·.2) = (t.recentRows table).filterMap (·.date? "session_date") := by
    have hsingle : ∀ (anchor : String) (text : Option String),
        (text.map (Tables.anchorRow anchor)).toList
          = text.toList.map (Tables.anchorRow anchor) := by
      intro anchor text
      cases text <;> rfl
    simp only [Tables.anchorRows, Tables.recentRows, hsingle, List.filterMap_append,
      List.filter_append, List.map_append, recent_anchorRow, String.reduceEq, if_true, if_false,
      List.append_nil]
    rw [List.filterMap_map]
    rfl
  rw [RecentSessions.ofRows, ← hrecent]
  obtain ⟨recent, hrecent, h⟩ := of_bind_eq_ok h
  obtain ⟨lastQuarter, -, h⟩ := of_bind_eq_ok h
  obtain ⟨firstYear, -, h⟩ := of_bind_eq_ok h
  obtain ⟨lastYear, -, h⟩ := of_bind_eq_ok h
  rw [hrecent, ← Except.ok.inj h]

namespace Tables

variable {t : Tables} {measure : Measure} {f : Filter} {current prior : List String}
  {strict : Bool}

/-- The records against one of the dates are those of a comparison with this date alone. -/
theorem mem_comparedRecords_singleton {date : String} (hdate : date ∈ prior) {r : ChangeRecord} :
    r ∈ t.comparedRecords ⟨measure, .ticker, f, current⟩ [date] strict ↔
      r ∈ t.comparedRecords ⟨measure, .ticker, f, current⟩ prior strict ∧
        r.priorDate = some date := by
  simp only [mem_comparedRecords, mem_sums_ticker, List.mem_singleton]
  constructor
  · rintro ⟨c, hc, p, ⟨rfl, hp⟩, hcomparable, rfl⟩
    exact ⟨⟨c, hc, p, ⟨hdate, hp⟩, hcomparable, rfl⟩, rfl⟩
  · rintro ⟨⟨c, hc, p, ⟨-, hp⟩, hcomparable, rfl⟩, hprior⟩
    exact ⟨c, hc, p, ⟨Option.some.inj hprior, hp⟩, hcomparable, rfl⟩

end Tables

section Rankings

variable {t : Tables} {f : Filter} {measure : Measure} {current prior : List String} {strict : Bool}
  {date : String} {records : List ChangeRecord} {α : Type} {row : PivotRow → α}
  {value : α → Option Float} {code : α → String}
  (hrecords : records.Perm (t.comparedRecords ⟨measure, .ticker, f, current⟩ prior strict))
  (hcurrent : AllSame current) (hlines : AllSame measure.lines) (hdate : date ∈ prior)
  (hcode : ∀ r, code (row r) = r.entity)
  (hvalue : ∀ entity, value (row ⟨entity, prior.map (slotValue (.byDate prior) records entity)⟩)
    = slotValue (.byDate prior) records entity date)

include hrecords hcurrent hlines hdate hcode hvalue

/-- The column of a date in a pivot has the changes of the records against this date alone. -/
theorem mem_valued_pivot {entity : String} {x : Float} :
    (entity, x) ∈ valued value code ((pivot (.byDate prior) records).map row) ↔
      ∃ r ∈ t.comparedRecords ⟨measure, .ticker, f, current⟩ [date] strict,
        r.entity = entity ∧ r.percentChange = some x := by
  have hdistinct : (PivotSlots.byDate prior).Distinct records := fun label hlabel r hr s hs =>
    distinct_byDate hcurrent hlines prior label hlabel r (hrecords.mem_iff.1 hr) s
      (hrecords.mem_iff.1 hs)
  have hslot := @slotValue_eq_some_iff _ _ entity date hdistinct hdate x
  rw [mem_valued]
  constructor
  · rintro ⟨b, hb, hentity, hx⟩
    obtain ⟨pivoted, hpivoted, rfl⟩ := List.mem_map.1 hb
    obtain ⟨e, -, rfl⟩ := List.mem_map.1 hpivoted
    obtain rfl : e = entity := (hcode _).symm.trans hentity
    obtain ⟨r, hr, hentity, haccepts, hx⟩ := hslot.1 ((hvalue e).symm.trans hx)
    exact ⟨r, (Tables.mem_comparedRecords_singleton hdate).2
      ⟨hrecords.mem_iff.1 hr, beq_iff_eq.1 haccepts⟩, hentity, hx⟩
  · rintro ⟨r, hr, rfl, hx⟩
    obtain ⟨hr, hprior⟩ := (Tables.mem_comparedRecords_singleton hdate).1 hr
    have hr := hrecords.mem_iff.2 hr
    have haccepts : (PivotSlots.byDate prior).accepts date r = true := beq_iff_eq.2 hprior
    have hentity : r.entity ∈ pivotEntities (.byDate prior) records :=
      mem_pivotEntities.2 ⟨r, hr, List.any_eq_true.2 ⟨date, hdate, haccepts⟩, rfl⟩
    exact ⟨_, List.mem_map_of_mem (List.mem_map_of_mem hentity), hcode _,
      (hvalue _).trans (hslot.2 ⟨r, hr, rfl, haccepts, hx⟩)⟩

variable (value) in
/-- A ranking by the column of a date shows what the ranking of the records against this date
does. -/
theorem valued_rankTop_pivot (limit : ℕ) :
    valued value code (rankTop limit value code ((pivot (.byDate prior) records).map row))
      = valued TopMover.roc5 TopMover.code (rankTop limit TopMover.roc5 TopMover.code
          ((t.comparedRecords ⟨measure, .ticker, f, current⟩ [date] strict).map
            Desk.TopMover.ofChange)) := by
  have hrows : (((pivot (.byDate prior) records).map row).map code).Nodup := by
    rw [codes_pivot _ _ hcode]
    exact nodup_pivotEntities _ _
  have hmovers : (((t.comparedRecords ⟨measure, .ticker, f, current⟩ [date] strict).map
      Desk.TopMover.ofChange).map TopMover.code).Nodup := by
    rw [List.map_map]
    exact nodup_entities hcurrent hlines (allSame_singleton date)
  rw [valued_rankTop value limit hrows, valued_rankTop TopMover.roc5 limit hmovers]
  refine rankTop_perm limit (nodup_valued value hrows) ((List.perm_ext_iff_of_nodup
    (.of_map _ (nodup_valued value hrows)) (.of_map _ (nodup_valued _ hmovers))).2 ?_)
  rintro ⟨entity, x⟩
  rw [mem_valued_pivot hrecords hcurrent hlines hdate hcode hvalue, mem_valued]
  constructor
  · rintro ⟨r, hr, hentity, hx⟩
    exact ⟨_, List.mem_map_of_mem hr, hentity, hx⟩
  · rintro ⟨m, hm, hentity, hx⟩
    obtain ⟨r, hr, rfl⟩ := List.mem_map.1 hm
    exact ⟨r, hr, hentity, hx⟩

end Rankings

namespace Desk

open Analysis

variable (desk : Desk) {t : Tables} (f : Filter) {s : SessionDates}

/-- The top movers are the ranking of the records against the fifth latest session. -/
theorem plain_topMovers (limit : ℕ) : plain t (desk.topMovers f limit)
    = (RecentSessions.ofRows .trades (t.recentRows .trades)).map fun s =>
        rankTop (clampLimit limit) (·.roc5) (·.code) ((t.comparedRecords
          ⟨.trade "close_price", .ticker, f, [s.latest.iso]⟩ [s.lastFive.iso] true).map
            TopMover.ofChange) := by
  rw [topMovers, Gateway.getOrCompute, plain_getOrComputeFor, plain_bind, recentSessions,
    plain_getOrComputeFor, plain_bind]
  change RecentSessions.ofRows .trades (t.recentRows .trades) >>= _ = _
  cases RecentSessions.ofRows .trades (t.recentRows .trades) <;> rfl

theorem run_topMovers_plain (limit : ℕ) (delay : Backend → ℕ) (purgeEvery now : ℕ) :
    ((desk.topMovers f limit).run.run (Backend.timed delay) (emptyBackend t purgeEvery now)).1
      = plain t (desk.topMovers f limit) := by
  rw [topMovers, Gateway.getOrCompute, plain_getOrComputeFor]
  exact desk.run_kept (transparent_iff.2 fun _ => desk.steady_movers t f _) ..

/-- Over an empty cache the top movers are that ranking. -/
theorem run_topMovers (limit : ℕ)
    (h : RecentSessions.ofRows .trades (t.recentRows .trades) = .ok ⟨s.latest, s.lastFive⟩)
    (delay : Backend → ℕ) (purgeEvery now : ℕ) :
    ((desk.topMovers f limit).run.run (Backend.timed delay) (emptyBackend t purgeEvery now)).1
      = .ok (rankTop (clampLimit limit) (·.roc5) (·.code) ((t.comparedRecords
          ⟨.trade "close_price", .ticker, f, [s.latest.iso]⟩ [s.lastFive.iso] true).map
            TopMover.ofChange)) := by
  rw [run_topMovers_plain, plain_topMovers, h]
  rfl

theorem plain_priceRows (h : plain t (desk.sessionDates .trades) = .ok s) :
    ∃ records : List ChangeRecord,
      plain t (desk.pivoted .priceChange f none) = .ok (pivot (.byDate [s.lastFive.iso,
        s.lastQuarter.iso, s.firstYear.iso, s.lastYear.iso]) records) ∧
      records.Perm (t.comparedRecords ⟨.trade "close_price", .ticker, f, [s.latest.iso]⟩
        [s.lastFive.iso, s.lastQuarter.iso, s.firstYear.iso, s.lastYear.iso] true) := by
  refine ⟨_, ?_, Metric.priceChange.sorted_perm _⟩
  rw [pivoted_eq, plain_bind]
  change (plain t (desk.sessionDates .trades >>= _) >>= _) = _
  rw [plain_bind, h]
  change plain t (_ <$> execute .priceChange f _) = _
  rw [execute_eq, plain_map, plain_map]
  rfl

theorem run_sessionDates_plain (table : SessionTable) (delay : Backend → ℕ) (purgeEvery now : ℕ) :
    ((desk.sessionDates table).run.run (Backend.timed delay) (emptyBackend t purgeEvery now)).1
      = plain t (desk.sessionDates table) :=
  agrees_eq ((transparent_iff.2 fun _ => desk.steady_sessionDates t table) delay _
    (sound_emptyBackend ..)).1

/-- Where the named sessions are found, the top movers and the ranking of price show the same
tickers with the same changes over five sessions, in the same order. -/
theorem valued_topMovers (delay : Backend → ℕ) (purgeEvery now : ℕ)
    (hs : ((desk.sessionDates .trades).run.run (Backend.timed delay)
      (emptyBackend t purgeEvery now)).1 = .ok s) :
    ∃ prices movers,
      ((desk.priceChange f).run.run (Backend.timed delay) (emptyBackend t purgeEvery now)).1
        = .ok prices ∧
      ((desk.topMovers f 50).run.run (Backend.timed delay) (emptyBackend t purgeEvery now)).1
        = .ok movers ∧
      movers.filterMap (fun m => m.roc5.map (m.code, ·))
        = prices.filterMap fun p => p.perFive.map (p.code, ·) := by
  have hplain : plain t (desk.sessionDates .trades) = .ok s := by
    rw [← hs, run_sessionDates_plain]
  have hrecent : RecentSessions.ofRows .trades (t.recentRows .trades)
      = .ok ⟨s.latest, s.lastFive⟩ := by
    rw [sessionDates, plain_getOrComputeFor, plain_bind] at hplain
    exact recentSessions_of_named hplain
  obtain ⟨records, hrows, hrecords⟩ := plain_priceRows desk f hplain
  refine ⟨_, _, run_ranked desk f hrows _ _ delay purgeEvery now,
    run_topMovers desk f 50 hrecent delay purgeEvery now, ?_⟩
  exact (valued_rankTop_pivot PricePerformance.perFive hrecords (allSame_singleton _)
    (allSame_singleton _) List.mem_cons_self (fun _ => rfl) (fun _ => rfl) 50).symm

end Desk

theorem valued_topMovers_sample :
    ((anchorDesk.sessionDates .trades).run.run (Backend.timed fun _ => 700)
        (Desk.emptyBackend anchorTables 3 0)).1 = .ok anchorSessions ∧
      ∃ prices movers,
        ((anchorDesk.priceChange banksOnHose).run.run (Backend.timed fun _ => 700)
          (Desk.emptyBackend anchorTables 3 0)).1 = .ok prices ∧
        ((anchorDesk.topMovers banksOnHose 50).run.run (Backend.timed fun _ => 700)
          (Desk.emptyBackend anchorTables 3 0)).1 = .ok movers ∧
        movers.filterMap (fun m => m.roc5.map (m.code, ·))
          = prices.filterMap fun p => p.perFive.map (p.code, ·) := by
  have hs : ((anchorDesk.sessionDates .trades).run.run (Backend.timed fun _ => 700)
      (Desk.emptyBackend anchorTables 3 0)).1 = .ok anchorSessions := by
    rw [anchorDesk.run_sessionDates_plain]
    exact plain_sessionDates anchorDesk anchorTables_dated (by decide) anchorSessions_of
  exact ⟨hs, Desk.valued_topMovers anchorDesk banksOnHose (fun _ => 700) 3 0 hs⟩

end Bourse
