import Bourse.Proofs.Desk.Calls
import Bourse.Proofs.Gateway.Operations
import Bourse.Proofs.Program.Acts
import Bourse.Proofs.Web.Admission

/-!
# Refused calls

A call with a parameter that its route reads and does not admit is refused before anything is done
(`Route.answer_of_not_admits`), so the state of the cache and of the database does not matter.

One refusal comes later. Reports are published per quarter or year, and a window over other periods
is found out only where the periods are listed, behind the lookup of the answer's key
(`industrySeries_of_unpublished`). Such a call still asks no statement and stores nothing, but its
answer is that of the lookup when the cache fails (`RefusedLate`).
-/

namespace Bourse

variable {α : Type}

/-- The act looks the key up, or takes a turn at it. -/
def Act.Looks (key : String) (act : Act) : Prop :=
  act = .lookup key ∨ act = .enter key ∨ act = .leave key

namespace Gateway

variable [Payload α] (g : Gateway) (key : String) (ttl : Option ℕ) (fault : Fault)

theorem within_getOrComputeFor_throw :
    (g.getOrComputeFor key ttl (throw fault : Analysis α)).run.Within (Act.Looks key) :=
  g.within_getOrComputeFor (.inl rfl) (.inr (.inl rfl)) (.inr (.inr rfl)) trivial

theorem exists_lookup (computation : Analysis α) :
    ∃ next, (g.getOrComputeFor key ttl computation).run = .lookup key next := by
  unfold getOrComputeFor
  cases g.strategy with
  | aside => exact ⟨_, rfl⟩
  | singleFlight => exact ⟨_, rfl⟩

theorem services_lookup (b : Backend) : Backend.services.lookup key b = b.lookup key := rfl

/-- Taking a turn does not change what is found. -/
theorem lookup_enter (b : Backend) (owner : ℕ) :
    ((b.enter owner key).lookup key).1 = (b.lookup key).1 := by
  unfold Backend.lookup Backend.enter
  dsimp only
  cases b.lookups <;> rfl

theorem run_fetch_throw (b : Backend) :
    ((g.fetch key ttl (throw fault : Analysis α)).run.run Backend.services b).1
      = match g.reading (b.lookup key).1 with
        | .ok (some hit) => .ok hit
        | .ok none => .error fault
        | .error e => .error e := by
  rw [Analysis.run_fetch_eq, services_lookup]
  rcases g.reading (α := α) (b.lookup key).1 with e | _ | hit <;> rfl

/-- The answer when the computation is bound to fail: what the lookup finds, or its failure, and the
fault when there is nothing to find. -/
theorem run_getOrComputeFor_throw (b : Backend) :
    ((g.getOrComputeFor key ttl (throw fault : Analysis α)).run.run Backend.services b).1
      = match g.reading (b.lookup key).1 with
        | .ok (some hit) => .ok hit
        | .ok none => .error fault
        | .error e => .error e := by
  unfold getOrComputeFor
  cases g.strategy with
  | aside => exact g.run_fetch_throw key ttl fault b
  | singleFlight =>
    dsimp only
    rw [Analysis.run_fetchInTurn_eq, services_lookup]
    rcases hread : g.reading (α := α) (b.lookup key).1 with e | _ | hit
    · rfl
    · -- the second lookup finds no more than the first
      obtain ⟨event, -, hagain⟩ := b.lookup_again key
      have hsecond := g.run_fetch_throw (α := α) key ttl fault ((b.lookup key).2.enter 0 key)
      rw [lookup_enter, hagain, hread] at hsecond
      exact hsecond
    · rfl

end Gateway

namespace Web

/-- A failure is answered, with the status and the code. -/
def Response.Fails (status : ℕ) (code : String) (r : Response) : Prop :=
  r.status = status ∧ ∃ message, r.body = .json (.object
    [("success", .bool false), ("error", .string message), ("code", .string code)])

/-- The parameters that the route reads are admitted. -/
def Route.Admits (q : MarketQuery) : Route → Prop
  | .health => True
  | .priceChange | .liquidityChange | .equityChange | .liabilitiesChange | .breadth =>
    q.FilterAdmitted
  | .topMovers => q.FilterAdmitted ∧ q.LimitAdmitted
  | .series _ => q.FilterAdmitted ∧ q.WindowAdmitted

section Respond

variable [Payload α] {β : Type} {x : Except Fault β} {fault : Fault}

theorem respond_of_error (hx : x = .error fault) (f : β → Analysis α) :
    respond (do f (← x)) = .done (.failure (.ofFault fault)) := by
  rw [hx]
  rfl

theorem respond_of_ok {b : β} (hx : x = .ok b) (f : β → Analysis α) :
    respond (do f (← x)) = respond (f b) := by
  rw [hx]
  rfl

end Respond

/-- A route refuses what it does not admit before it asks the desk for anything. -/
theorem Route.answer_of_not_admits (desk : Desk) {route : Route} {q : MarketQuery}
    (h : ¬route.Admits q) :
    ∃ cause, route.answer desk q = .done (.failure (.ofFault (.invalid cause))) := by
  by_cases hfilter : q.FilterAdmitted
  · obtain ⟨f, hf⟩ := q.judged_filter.exists_ok hfilter
    cases route with
    | health => exact absurd trivial h
    | priceChange | liquidityChange | equityChange | liabilitiesChange | breadth =>
      exact absurd hfilter h
    | topMovers =>
      obtain ⟨cause, hcause⟩ := q.judged_limit.exists_error fun hlimit => h ⟨hfilter, hlimit⟩
      exact ⟨cause, (respond_of_ok hf _).trans (respond_of_error hcause _)⟩
    | series metric =>
      obtain ⟨cause, hcause⟩ := q.judged_window.exists_error fun hwindow => h ⟨hfilter, hwindow⟩
      exact ⟨cause, (respond_of_ok hf _).trans (respond_of_error hcause _)⟩
  · obtain ⟨cause, hcause⟩ := q.judged_filter.exists_error hfilter
    refine ⟨cause, ?_⟩
    cases route with
    | health => exact absurd trivial h
    | _ => exact respond_of_error hcause _

/-- The report periods of the window are asked for only when the desk computes. -/
theorem industrySeries_of_unpublished (desk : Desk) {metric : Metric} (hmetric : metric.isWindowed)
    (hreports : metric.measure.sessions = none) (f : Filter) {w : Window}
    (hunit : w.unit ≠ .quarter ∧ w.unit ≠ .year) :
    desk.industrySeries metric f w
      = desk.gateway.getOrCompute (Topic.series metric f w).key.text
          (throw (.invalid (.unpublished w.unit))) := by
  have hperiods : reportPeriods desk.today w.unit (w.order + 1)
      = .error (.invalid (.unpublished w.unit)) := by
    unfold reportPeriods
    rw [if_neg]
    simp [hunit]
  have hdates : desk.sampleDates metric.measure w = throw (.invalid (.unpublished w.unit)) := by
    unfold Desk.sampleDates
    rw [hreports, hperiods]
    rfl
  have hplan : desk.plan metric (some w) = throw (.invalid (.unpublished w.unit)) := by
    unfold Desk.plan
    have hstrategy : metric.strategy = .offset ∨ metric.strategy = .lag := by
      simpa [Metric.isWindowed] using hmetric
    rcases hstrategy with hstrategy | hstrategy <;> rw [hstrategy]
    all_goals
      change (desk.sampleDates metric.measure w >>= _) = _
      rw [hdates]
      rfl
  unfold Desk.industrySeries Desk.computeChange
  rw [if_pos hmetric, hplan]
  rfl

/-- A call that is refused only after its key is looked up. Nothing else is done, but the refusal
takes a lookup that is answered and finds nothing. -/
structure RefusedLate (key : String) (p : Program Response) : Prop where
  begins : ∃ next, p = .lookup key next
  within : p.Within (Act.Looks key)
  missed : ∀ b : Backend, b.lookups = .healthy →
    (b.cache.find? b.now key).bind (Payload.read (α := List IndustryPoint)) = none →
      (p.run Backend.services b).1.Fails 400 "VALIDATION_ERROR"
  failing : ∀ b : Backend, b.lookups = .failing →
    (p.run Backend.services b).1.Fails 500 "CACHE_ERROR"
  stalled : ∀ b : Backend, b.lookups = .stalled →
    (p.run Backend.services b).1.Fails 504 "TIMEOUT"

theorem run_respond [Payload α] (a : Analysis α) (b : Backend) :
    ((respond a).run Backend.services b).1 = match (a.run.run Backend.services b).1 with
      | .ok data => .success data
      | .error fault => .failure (.ofFault fault) := by
  rw [respond, Program.run_bind]
  rfl

theorem refusedLate_respond (g : Gateway) (key : String) (cause : Invalid) :
    RefusedLate key (respond (g.getOrCompute key
      (throw (.invalid cause) : Analysis (List IndustryPoint)))) := by
  have hrun := fun b => g.run_getOrComputeFor_throw (α := List IndustryPoint) key g.defaultTtl
    (.invalid cause) b
  refine ⟨?_, ?_, fun b hhealth hmissed => ?_, fun b hhealth => ?_, fun b hhealth => ?_⟩
  · obtain ⟨next, hnext⟩ := g.exists_lookup key g.defaultTtl
      (throw (.invalid cause) : Analysis (List IndustryPoint))
    unfold respond Gateway.getOrCompute
    rw [hnext]
    exact ⟨_, rfl⟩
  · exact (g.within_getOrComputeFor_throw key _ _).bind fun _ => trivial
  · have hread : g.reading (α := List IndustryPoint) (b.lookup key).1 = .ok none := by
      simp only [Backend.lookup, hhealth, CacheStore.get_fst]
      exact congrArg Except.ok hmissed
    rw [run_respond, Gateway.getOrCompute, hrun, hread]
    exact ⟨rfl, _, rfl⟩
  · have hread : g.reading (α := List IndustryPoint) (b.lookup key).1
        = .error (.cache "get refused") := by
      simp only [Backend.lookup, hhealth]
      rfl
    rw [run_respond, Gateway.getOrCompute, hrun, hread]
    exact ⟨rfl, _, rfl⟩
  · have hread : g.reading (α := List IndustryPoint) (b.lookup key).1
        = .error (.timeout "cache get" g.timeout) := by
      simp only [Backend.lookup, hhealth]
      rfl
    rw [run_respond, Gateway.getOrCompute, hrun, hread]
    exact ⟨rfl, _, rfl⟩

theorem RefusedLate.withRequestId {key : String} {p : Program Response} (h : RefusedLate key p)
    (id : String) : RefusedLate key (p.bind fun r => .done (r.withRequestId id)) := by
  obtain ⟨⟨next, rfl⟩, hwithin, hmissed, hfailing, hstalled⟩ := h
  refine ⟨⟨_, rfl⟩, hwithin.bind fun _ => trivial, fun b hhealth hcold => ?_, fun b hhealth => ?_,
    fun b hhealth => ?_⟩
  · rw [Program.run_bind]
    exact hmissed b hhealth hcold
  · rw [Program.run_bind]
    exact hfailing b hhealth
  · rw [Program.run_bind]
    exact hstalled b hhealth

theorem isWindowed_of_ofPath? {path : String} {metric : Metric}
    (h : Route.ofPath? path = some (.series metric)) : metric.isWindowed := by
  obtain ⟨before, after, hall, -⟩ := List.lookup_eq_some_iff.1 h
  have hmem : (path, Route.series metric) ∈ Route.all :=
    hall ▸ List.mem_append_right before List.mem_cons_self
  rcases List.mem_append.1 hmem with hfixed | hseries
  · simp at hfixed
  · obtain ⟨m, hm, heq⟩ := List.mem_map.1 hseries
    cases heq
    exact (List.mem_filter.1 hm).2

theorem answerCall_get (desk : Desk) (freshId : String) {r : Request} {route : Route}
    {q : MarketQuery} (hmethod : r.method = "GET")
    (hroute : Route.ofPath? r.parts.1 = some route)
    (hquery : MarketQuery.ofPairs (queryPairs r.parts.2) = .ok q) (hhealth : route ≠ .health) :
    answerCall desk freshId r = (route.answer desk q).bind fun a =>
      .done (a.withRequestId (r.suppliedId.getD freshId)) := by
  unfold answerCall
  rw [if_neg (by rw [hmethod]; decide)]
  dsimp only
  rw [hroute]
  dsimp only
  rw [if_pos hmethod, Route.answerTo, if_neg hhealth, hquery]

/-- A call whose route reads a parameter that it does not admit is refused before anything is done:
the program is over, whatever the state of the cache and of the database. A window over days, weeks
or months is admitted though no reports are published for one, and the series of a metric that is
built on reports refuses it only when it computes. -/
theorem answerCall_refuses (desk : Desk) (freshId : String) (r : Request) (route : Route)
    (q : MarketQuery) (hmethod : r.method = "GET")
    (hroute : Route.ofPath? r.parts.1 = some route)
    (hquery : MarketQuery.ofPairs (queryPairs r.parts.2) = .ok q) :
    (¬route.Admits q → ∃ response, answerCall desk freshId r = .done response ∧
      response.Fails 400 "VALIDATION_ERROR") ∧
    ∀ metric, route = .series metric → metric.measure.sessions = none → route.Admits q →
      ∃ f w, q.filter = .ok f ∧ q.window = .ok w ∧ (w.unit ∈ [.day, .week, .month] →
        RefusedLate (Topic.series metric f w).key.text (answerCall desk freshId r)) := by
  refine ⟨fun h => ?_, ?_⟩
  · have hhealth : route ≠ .health := by
      rintro rfl
      exact h trivial
    obtain ⟨cause, hanswer⟩ := route.answer_of_not_admits desk h
    rw [answerCall_get desk freshId hmethod hroute hquery hhealth, hanswer]
    exact ⟨_, rfl, rfl, _, rfl⟩
  · rintro metric rfl hreports ⟨hfilter, hwindow⟩
    obtain ⟨f, hf⟩ := q.judged_filter.exists_ok hfilter
    obtain ⟨w, hw⟩ := q.judged_window.exists_ok hwindow
    refine ⟨f, w, hf, hw, fun hunit => ?_⟩
    have hunpublished : w.unit ≠ .quarter ∧ w.unit ≠ .year := by
      rcases w with ⟨unit, order⟩
      cases unit <;> simp_all
    rw [answerCall_get desk freshId hmethod hroute hquery (by simp)]
    have hanswer : (Route.series metric).answer desk q
        = respond (desk.industrySeries metric f w) :=
      (respond_of_ok hf _).trans (respond_of_ok hw _)
    rw [hanswer, industrySeries_of_unpublished desk (isWindowed_of_ofPath? hroute) hreports f
      hunpublished]
    exact (refusedLate_respond desk.gateway _ _).withRequestId _

/-- The net revenue per day, which no reports are published for. -/
def dailyRevenue : Request :=
  ⟨"GET", "/api/market/net-revenue?type=day", []⟩

/-- The movers of an exchange that is not known. -/
def foreignMovers : Request :=
  ⟨"GET", "/api/market/top-movers?exchange=NYSE&limit=5", []⟩

theorem answerCall_refuses_sample :
    (∃ response, answerCall Desk.sampleDesk "id" foreignMovers = .done response ∧
      response.Fails 400 "VALIDATION_ERROR") ∧
    ∃ key, RefusedLate key (answerCall Desk.sampleDesk "id" dailyRevenue) := by
  constructor
  · have hpairs : queryPairs foreignMovers.parts.2 = [("exchange", "NYSE"), ("limit", "5")] := by
      decide +kernel
    refine (answerCall_refuses Desk.sampleDesk "id" foreignMovers .topMovers
      ⟨some "NYSE", none, none, none, some "5"⟩ rfl (by decide +kernel) (by rw [hpairs]; rfl)).1
      fun h => absurd h.1.exchange (by decide +kernel)
  · have hpairs : queryPairs dailyRevenue.parts.2 = [("type", "day")] := by
      decide +kernel
    have hunit : ∀ text, some "day" = some text →
        Text.lower (Text.trim text) ∈ Period.readable := by
      rintro _ ⟨⟩
      decide +kernel
    obtain ⟨f, w, -, hw, hlate⟩ := (answerCall_refuses Desk.sampleDesk "id" dailyRevenue
      (.series .netRevenue) ⟨none, none, some "day", none, none⟩ rfl (by decide +kernel)
      (by rw [hpairs]; rfl)).2 .netRevenue rfl rfl
        ⟨⟨by decide +kernel, .inl rfl⟩, ⟨hunit, fun _ h => by cases h⟩⟩
    have hday : MarketQuery.window ⟨none, none, some "day", none, none⟩ = .ok ⟨.day, 4⟩ := by
      decide +kernel
    obtain rfl := Except.ok.inj (hw.symm.trans hday)
    exact ⟨_, hlate (by decide)⟩

/-- The call on a backend without tickers, over a cache in some health. -/
def runDailyRevenue (lookups : Health) : Response × Backend :=
  (answerCall Desk.sampleDesk "id" dailyRevenue).run Backend.services
    { Backend.fresh (.tables .empty) with lookups := lookups }

/-- The call fails over a cache whose lookups fail, and not as one that is malformed. Over a cache
that works it is refused, but only after its key is looked up. -/
theorem dailyRevenue_looked_up :
    Route.ofPath? dailyRevenue.parts.1 = some (.series .netRevenue) ∧
      Metric.netRevenue.measure.sessions = none ∧
      (MarketQuery.ofPairs (queryPairs dailyRevenue.parts.2)).toOption.map (·.windowType)
        = some (some "day") ∧
      (runDailyRevenue .failing).1.status = 500 ∧ (runDailyRevenue .failing).2.log.length = 1 ∧
      (runDailyRevenue .healthy).1.status = 400 ∧ 0 < (runDailyRevenue .healthy).2.log.length := by
  decide +kernel

end Web

end Bourse
