import Bourse.Proofs.Desk.Answers
import Bourse.Proofs.Desk.RowOrder
import Bourse.Proofs.Gateway.Kept
import Bourse.Proofs.Json.Settled

/-!
# Steady analyses

Under any conditions a desk gives its plain outcomes, unless something fails. Sessions are found
from rows in any order, so what is kept under their keys stays true (`steady_sessionDates` and
alike). Rankings and series have one order whatever order the rows come in (`steady_byDate`,
`steady_byLine`, `steady_series`).
-/

namespace Bourse

namespace Desk

open Analysis

variable (desk : Desk) {c : Conditions} (t : Tables)

section Sessions

variable {desk t} in
/-- What a call keeps under the key of its topic is given as if it had just been computed. -/
theorem steady_topic {α : Type} [Payload α] {same : α → α → Prop} (hk : Kept same) {d : Call}
    (hd : d.topic.WellFormed) {ttl : Option ℕ} {computation : Analysis α}
    (hanswer : desk.answer d
      = Payload.encode <$> desk.gateway.getOrComputeFor d.topic.key.text ttl computation)
    (hcomputation : Steady c t (desk.truth t) same computation) :
    Steady c t (desk.truth t) same
      (desk.gateway.getOrComputeFor d.topic.key.text ttl computation) := by
  rw [Steady, plain_getOrComputeFor]
  refine Gives.getOrComputeFor hcomputation hk fun j => ?_
  rw [desk.truth_key t hd, hanswer, plain_map, plain_getOrComputeFor]
  rcases plain t computation with _ | v
  · constructor
    · intro h
      cases h
    · rintro ⟨w, hw, -⟩
      cases hw
  · constructor
    · exact fun h => ⟨v, rfl, Except.ok.inj h⟩
    · rintro ⟨w, hw, he⟩
      cases hw
      exact congrArg _ he

theorem steady_sessionDates (table : SessionTable) :
    Steady c t (desk.truth t) Eq (desk.sessionDates table) :=
  steady_topic (d := .sessionDates table) kept_eq trivial rfl <|
    steady_asked fun _ => SessionDates.ofRows_perm

theorem steady_recentSessions (table : SessionTable) :
    Steady c t (desk.truth t) Eq (desk.recentSessions table) :=
  steady_topic (d := .recentSessions table) kept_eq trivial rfl <|
    steady_asked fun _ => RecentSessions.ofRows_perm table

theorem steady_nearestSession (table : SessionTable) (target : Date) :
    Steady c t (desk.truth t) Eq (desk.nearestSession table target) :=
  steady_topic (d := .nearestSession table target) kept_eq trivial rfl <|
    steady_asked fun _ h => congrArg _ (eq_nearestRows_of_perm h)

theorem steady_sampleSessions (table : SessionTable) (targets : List Date) :
    Steady c t (desk.truth t) Eq (desk.sampleSessions table targets) :=
  (Steady.mapM (desk.steady_nearestSession t table) targets).bind fun _ _ => steady_pure _

theorem steady_sampleDates (measure : Measure) (window : Window) :
    Steady c t (desk.truth t) Eq (desk.sampleDates measure window) := by
  unfold sampleDates
  cases measure.sessions with
  | some table => exact (desk.steady_sampleSessions t table _).bind fun _ _ => steady_pure _
  | none => exact gives_ofExcept _

theorem steady_plan (metric : Metric) (window : Option Window) :
    Steady c t (desk.truth t) Eq (desk.plan metric window) := by
  unfold plan
  cases metric.strategy with
  | sessionAnchors =>
    exact (desk.steady_sessionDates t .trades).bind fun _ _ => steady_pure _
  | quarterAnchors =>
    exact (Steady.mapM (desk.steady_nearestSession t .trades) _).bind fun _ _ => steady_pure _
  | offset =>
    refine (steady_lift _).bind fun window _ =>
      (desk.steady_sampleDates t metric.measure window).bind fun dates _ => ?_
    cases leastText dates with
    | some start => exact steady_pure _
    | none => exact steady_throw _
  | latestQuarters => exact (steady_lift _).bind fun _ _ => steady_pure _
  | lag =>
    exact (steady_lift _).bind fun window _ =>
      (desk.steady_sampleDates t metric.measure window).bind fun _ _ => steady_pure _

theorem steady_breadthSessions : Steady c t (desk.truth t) Eq desk.breadthSessions :=
  (desk.steady_recentSessions t .trades).bind fun _ _ =>
    (desk.steady_nearestSession t .trades _).bind fun _ _ =>
      (desk.steady_nearestSession t .trades _).bind fun _ _ => steady_pure _

end Sessions

section Changes

variable (c) in
/-- Whatever order the rows come in, a plan has the same records in some order. -/
theorem records_order (b : Backend) (metric : Metric) (f : Filter) (plan : Plan) :
    (plan.records (c.order b (plan.statement metric f)
      (t.answer (plan.statement metric f)))).Perm
      (plan.records (t.answer (plan.statement metric f))) :=
  Plan.records_perm (c.order_perm ..)

variable {desk t} {metric : Metric} {f : Filter} {window : Option Window}

/-- What comes of the change records of a metric, from what comes of the rows of its statement. -/
theorem steady_changes {α : Type} {same : α → α → Prop} {g : Plan → List ChangeRecord → α}
    (h : ∀ plan, plain t (desk.plan metric window) = .ok plan → ∀ b,
      let answer := t.answer (plan.statement metric f)
      same (g plan (metric.sorted (plan.records (c.order b (plan.statement metric f) answer))))
        (g plan (metric.sorted (plan.records answer)))) :
    Steady c t (desk.truth t) same
      (desk.plan metric window >>= fun plan => g plan <$> execute metric f plan) := by
  refine (desk.steady_plan t metric window).bind fun plan hplan => ?_
  rw [execute_eq, ← comp_map]
  exact steady_ask (h plan hplan)

theorem steady_computeChange {same : List ChangeRecord → List ChangeRecord → Prop}
    (h : ∀ plan, plain t (desk.plan metric window) = .ok plan → ∀ b,
      let answer := t.answer (plan.statement metric f)
      same (metric.sorted (plan.records (c.order b (plan.statement metric f) answer)))
        (metric.sorted (plan.records answer))) :
    Steady c t (desk.truth t) same (desk.computeChange metric f window) := by
  refine (desk.steady_plan t metric window).bind fun plan hplan => ?_
  rw [execute_eq]
  exact steady_ask (h plan hplan)

/-- The plan of a metric without a window has one current date at most, and so has it prior ones
when they are quarters. -/
theorem compare_of_plain_plan (hmetric : metric.isWindowed = false) {plan : Plan}
    (h : plain t (desk.plan metric window) = .ok plan) :
    ∃ current prior strict, plan = .compare current prior strict ∧ AllSame current ∧
      (metric.strategy = .latestQuarters → AllSame prior) := by
  unfold Desk.plan at h
  cases hstrategy : metric.strategy with
  | sessionAnchors =>
    simp only [hstrategy] at h
    obtain ⟨s, -, h⟩ := of_plain_bind h
    cases h
    exact ⟨_, _, _, rfl, allSame_singleton _, nofun⟩
  | quarterAnchors =>
    simp only [hstrategy] at h
    obtain ⟨sessions, -, h⟩ := of_plain_bind h
    cases h
    exact ⟨_, _, _, rfl, allSame_of_length_le (List.length_take_le _ _), nofun⟩
  | latestQuarters =>
    simp only [hstrategy, plain_bind] at h
    have hperiods : reportPeriods desk.today .quarter 2
        = .ok [reportLabel desk.today .quarter 2, reportLabel desk.today .quarter 1] := rfl
    rw [hperiods] at h
    cases h
    exact ⟨_, _, _, rfl, allSame_singleton _, fun _ => allSame_singleton _⟩
  | offset => simp [Metric.isWindowed, hstrategy] at hmetric
  | lag => simp [Metric.isWindowed, hstrategy] at hmetric

variable {α : Type} {row : PivotRow → α} {value : α → Option Float} {code : α → String}
  (hcode : ∀ r, code (row r) = r.entity)

include hcode

theorem steady_ranked (hmetric : metric.isWindowed = false) (lines : Option (List String))
    (hdistinct : ∀ current prior strict, AllSame current →
      (metric.strategy = .latestQuarters → AllSame prior) →
      (Plan.slots (.compare current prior strict) lines).Distinct
        (t.comparedRecords ⟨metric.measure, metric.entity, f, current⟩ prior strict)) :
    Steady c t (desk.truth t) Eq (do
      let rows ← desk.pivoted metric f lines
      return rankTop topCount value code (rows.map row)) := by
  have hrank : (do
      let rows ← desk.pivoted metric f lines
      return rankTop topCount value code (rows.map row))
        = desk.plan metric none >>= fun plan => (fun records => rankTop topCount value code
            ((pivot (plan.slots lines) records).map row)) <$> execute metric f plan := by
    simp only [pivoted_eq, bind_assoc, map_eq_pure_bind, pure_bind]
  rw [hrank]
  refine steady_changes fun plan hplan b => ?_
  obtain ⟨current, prior, strict, rfl, hcurrent, hprior⟩ := compare_of_plain_plan hmetric hplan
  have hslots := hdistinct current prior strict hcurrent hprior
  exact (rankTop_pivot_perm ((metric.sorted_perm _).trans (records_order ..)) hslots hcode
    topCount).trans (rankTop_pivot_perm (metric.sorted_perm _) hslots hcode topCount).symm

/-- A ranking of the changes since some dates. -/
theorem steady_byDate (hmetric : metric.isWindowed = false)
    (hlines : AllSame metric.measure.lines) :
    Steady c t (desk.truth t) Eq (do
      let rows ← desk.pivoted metric f none
      return rankTop topCount value code (rows.map row)) :=
  steady_ranked hcode hmetric none fun _ _ _ hcurrent _ => distinct_byDate hcurrent hlines _

omit hcode in
/-- The report lines of a metric are told apart by their lower case. -/
theorem eq_of_lower_line_eq (metric : Metric) : ∀ line ∈ metric.measure.lines,
    ∀ line' ∈ metric.measure.lines, line.map Text.lower = line'.map Text.lower → line = line' := by
  cases metric <;> decide

/-- A ranking of the changes of some report lines. -/
theorem steady_byLine (hmetric : metric.strategy = .latestQuarters) {lines : List String} :
    Steady c t (desk.truth t) Eq (do
      let rows ← desk.pivoted metric f (some lines)
      return rankTop topCount value code (rows.map row)) :=
  steady_ranked hcode (by simp [Metric.isWindowed, hmetric]) (some lines)
    fun _ _ _ hcurrent hprior =>
    distinct_byLine hcurrent (hprior hmetric) (eq_of_lower_line_eq metric) lines

end Changes

/-- A ranking of the changes of price since the fifth latest session. -/
theorem steady_movers (f : Filter) (limit : ℕ) : Steady c t (desk.truth t) Eq (do
    let s ← desk.recentSessions .trades
    let rows ← ask (.comparison
      ⟨Metric.priceChange.measure, Metric.priceChange.entity, f, [s.latest.iso]⟩
      [s.lastFive.iso] true)
    let movers := (rows.filterMap ChangeRecord.ofRow?).map TopMover.ofChange
    return rankTop limit (·.roc5) (·.code) movers) := by
  refine (desk.steady_recentSessions t .trades).bind fun s _ => ?_
  rw [← map_eq_pure_bind]
  refine steady_ask fun b => rankTop_perm limit ?_ (((c.order_perm ..).filterMap _).map _)
  rw [List.map_map]
  have hperm := records_order c t b .priceChange f
    (.compare [s.latest.iso] [s.lastFive.iso] true)
  exact (hperm.map _).nodup_iff.2 (nodup_entities (allSame_singleton _)
    (allSame_singleton none) (allSame_singleton _))

section Series

variable {desk t} {metric : Metric} {f : Filter} {window : Option Window}
  (hmetric : metric.isWindowed = true)

include hmetric

/-- The plan of a metric with a window goes from date to date, or compares all dates with one. -/
theorem of_plain_plan {plan : Plan} (h : plain t (desk.plan metric window) = .ok plan) :
    ∃ dates, plan = .lag dates ∨ ∃ start, plan = .compare dates [start] false := by
  unfold Desk.plan at h
  cases hstrategy : metric.strategy with
  | offset =>
    simp only [hstrategy] at h
    obtain ⟨w, -, h⟩ := of_plain_bind h
    obtain ⟨dates, -, h⟩ := of_plain_bind h
    revert h
    cases leastText dates with
    | none => exact nofun
    | some start => exact fun h => ⟨dates, .inr ⟨start, (Except.ok.inj h).symm⟩⟩
  | lag =>
    simp only [hstrategy] at h
    obtain ⟨w, -, h⟩ := of_plain_bind h
    obtain ⟨dates, -, h⟩ := of_plain_bind h
    exact ⟨dates, .inl (Except.ok.inj h).symm⟩
  | _ => simp [Metric.isWindowed, hstrategy] at hmetric

/-- The change records of a metric with a window. -/
theorem steady_windowed : Steady c t (desk.truth t) Eq (desk.computeChange metric f window) := by
  have htime : metric.isPointInTime = false := by
    cases metric <;> first | rfl | cases hmetric
  refine steady_computeChange fun plan hplan b => Plan.sorted_eq (c.order_perm ..) htime ?_
  obtain ⟨dates, rfl | ⟨start, rfl⟩⟩ := of_plain_plan hmetric hplan
  · exact t.nodup_laggedRecords _
  · exact t.nodup_offsetRecords _ start

theorem steady_series : Steady c t (desk.truth t) Eq (do
    let records ← desk.computeChange metric f window
    return records.map IndustryPoint.ofChange) :=
  (steady_windowed hmetric).bind fun _ _ => steady_pure _

end Series

/-- The breadth of the market, when what is made of the rows of its two statements is the same for
our purposes. -/
theorem steady_breadth (f : Filter) {same : List IndustryBreadth → List IndustryBreadth → Prop}
    (like : List Row → List Row → Prop)
    (hlike : ∀ b statement, like (c.order b statement (t.answer statement)) (t.answer statement))
    (hsame : ∀ s, plain t desk.breadthSessions = .ok s → ∀ counts closes,
      like counts (t.countRows f s.latest s.previous) →
      like closes (t.closeRows f [s.latest, s.previous, s.week, s.month]) →
      same (IndustryBreadth.ofRows counts closes s)
        (IndustryBreadth.ofRows (t.countRows f s.latest s.previous)
          (t.closeRows f [s.latest, s.previous, s.week, s.month]) s)) :
    Steady c t (desk.truth t) same (do
      let s ← desk.breadthSessions
      let counts ← ask (.breadthCounts f s.latest s.previous)
      let closes ← ask (.closes f [s.latest, s.previous, s.week, s.month])
      return IndustryBreadth.ofRows counts closes s) := by
  refine (desk.steady_breadthSessions t).bind fun s hs => ?_
  rw [Steady, plain_bind]
  refine (gives_ask _ fun b => hlike b _).bind fun counts counts' hcounts' hcounts => ?_
  obtain rfl := Except.ok.inj hcounts'
  rw [plain_bind]
  refine (gives_ask _ fun b => hlike b _).bind fun closes closes' hcloses' hcloses => ?_
  obtain rfl := Except.ok.inj hcloses'
  exact fun b hb => ⟨.agreed (.ok (hsame s hs counts closes hcounts hcloses)), hb⟩

section Answers

variable {desk t} {α : Type} [Payload α] [Payload.Faithful α]

/-- An answer that is kept under the key of its topic. -/
theorem steady_kept {d : Call} (hd : d.topic.WellFormed) {computation : Analysis α}
    (hanswer : desk.answer d
      = Payload.encode <$> desk.gateway.getOrCompute d.topic.key.text computation)
    (hcomputation : Steady c t (desk.truth t) Eq computation) :
    Steady c t (desk.truth t) Eq (desk.answer d) := by
  rw [hanswer]
  have hsame : ∀ {x y : α}, x = y → Payload.encode x = Payload.encode y := fun h => congrArg _ h
  exact (steady_topic kept_encode hd hanswer (hcomputation.mono hsame)).map id

end Answers

/-- A call is answered as with nothing cached, when rows come in the order of the tables or it is
not about breadth. -/
theorem steady_answer {d : Call} (hd : d.topic.WellFormed)
    (horder : ∀ f, d = .marketBreadth f → c.InOrder) :
    Steady c t (desk.truth t) Eq (desk.answer d) := by
  cases d with
  | priceChange f =>
    exact steady_kept hd rfl (steady_byDate (fun _ => rfl) rfl (allSame_singleton _))
  | liquidityChange f =>
    exact steady_kept hd rfl (steady_byDate (fun _ => rfl) rfl (allSame_singleton _))
  | equityChange f =>
    refine steady_kept hd rfl (steady_byLine ?_ rfl)
    exact fun _ => rfl
  | liabilitiesChange f =>
    refine steady_kept hd rfl (steady_byLine ?_ rfl)
    exact fun _ => rfl
  | industrySeries m f w =>
    by_cases hm : m.isWindowed
    · exact steady_kept hd (by simp only [answer, industrySeries, if_pos hm]; rfl)
        (steady_series hm)
    · simp only [answer, industrySeries, if_neg hm]
      exact (steady_throw _).map (congrArg _)
  | marketBreadth f =>
    refine steady_kept hd rfl (steady_breadth desk t f Eq ?_ ?_)
    · exact fun b statement => horder f rfl ..
    · rintro s - _ _ rfl rfl
      rfl
  | topMovers f limit => exact steady_kept hd rfl (steady_movers desk t f _)
  | sessionDates table => exact (desk.steady_sessionDates t table).map (congrArg _)
  | recentSessions table => exact (desk.steady_recentSessions t table).map (congrArg _)
  | nearestSession table target =>
    exact (desk.steady_nearestSession t table target).map (congrArg _)

end Desk

end Bourse
