import Bourse.Proofs.Cache.InFlight
import Bourse.Proofs.Gateway.Kept
import Bourse.Proofs.Program.Steps

/-!
# One operation after another

A trace of a gateway is what its operations come to when each one is over before the next begins
(`Gateway.trace`), over a store whose lookups and writes may be healthy, failing or stalled anew
each time. Nobody waits for a lock then, so strategies differ in nothing but the second lookup of a
request that computes (`Gateway.forall₂_strategies`): it finds what the first one found
(`Backend.lookup_again`), a computation and its write do not notice it
(`Analysis.sameButLookups_computeAndStore`), and the table forgets the lock as soon as it is given
back (`InFlight.Free.leave_join`).
-/

namespace Bourse

/-- What is done with a gateway at values of a type, or straight with the store behind it. -/
inductive Operation (α : Type) where
  | get (key : String)
  | set (key : String) (value : α) (ttl : Option ℕ)
  /-- A value from the cache, or else from a computation of so many milliseconds. Unless it has a
  time to live of its own, it has the gateway's. -/
  | getOrCompute (key : String) (ttl : Option (Option ℕ)) (takes : ℕ) (outcome : Except Fault α)
  /-- A text that is written into the store past the gateway. -/
  | put (key text : String) (ttl : Option ℕ)

/-- An operation, in what health it finds the store, and how long nothing happened before it. To
wait for a stalled call ends an operation, so that time belongs to the next step. -/
structure Step where
  after : ℕ
  lookups : Health
  writes : Health
  {α : Type}
  [payload : Payload α]
  operation : Operation α

/-- The outcome of an operation, whose values have a type of their own. -/
abbrev Answer := Σ α : Type, Except Fault α

/-- What an operation came to, and the backend after it. -/
structure Observed where
  answer : Answer
  backend : Backend

def Observed.of {α : Type} (r : Except Fault α × Backend) : Observed :=
  ⟨⟨α, r.1⟩, r.2⟩

namespace Backend

/-- The backend after a computation that took some time. -/
def computed (takes : ℕ) (b : Backend) : Backend :=
  (b.note .computed).elapse takes

/-- The backend as a request alone finds it whose computation takes some time. -/
def computing (takes : ℕ) : Services Backend :=
  { services with compute := computed takes }

@[simp]
theorem computing_lookup (takes : ℕ) : (computing takes).lookup = lookup := rfl

@[simp]
theorem computing_enter (takes : ℕ) : (computing takes).enter = enter 0 := rfl

@[simp]
theorem computing_leave (takes : ℕ) : (computing takes).leave = leave 0 := rfl

/-- The backend when a step begins, with nothing in the log yet. -/
def ready (step : Step) (b : Backend) : Backend :=
  { b.elapse step.after with lookups := step.lookups, writes := step.writes, log := [] }

end Backend

section Traces

variable {α : Type} [Payload α]

namespace Operation

def run (g : Gateway) : Operation α → Backend → Observed
  | .get key, b => .of ((g.get key : Analysis (Option α)).run.run Backend.services b)
  | .set key value ttl, b => .of ((g.set key value ttl).run.run Backend.services b)
  | .getOrCompute key none takes outcome, b =>
    .of ((g.getOrCompute key (.compute outcome)).run.run (Backend.computing takes) b)
  | .getOrCompute key (some ttl) takes outcome, b =>
    .of ((g.getOrComputeFor key ttl (.compute outcome)).run.run (Backend.computing takes) b)
  | .put key text ttl, b => .of (.ok (), { b with cache := b.cache.set b.now key text ttl })

variable (g : Gateway) (key : String) (b : Backend)

theorem run_get : (get key : Operation α).run g b
    = .of (g.reading (α := α) (b.lookup key).1, (b.lookup key).2) := by
  rw [run, Analysis.run_get_eq]
  rfl

theorem run_set (value : α) (ttl : Option ℕ) : (set key value ttl).run g b
    = .of ((b.store key (Payload.write value) ttl).1.within "cache set" g.timeout,
        (b.store key (Payload.write value) ttl).2) := by
  rw [run, Analysis.run_set_eq]
  rfl

theorem run_getOrCompute (ttl : Option (Option ℕ)) (takes : ℕ) (outcome : Except Fault α) :
    (getOrCompute key ttl takes outcome).run g b
      = .of ((g.getOrComputeFor key (ttl.getD g.defaultTtl) (.compute outcome)).run.run
          (Backend.computing takes) b) := by
  cases ttl <;> rfl

end Operation

def Step.run (g : Gateway) (step : Step) (b : Backend) : Observed :=
  letI := step.payload
  step.operation.run g (b.ready step)

/-- What some steps come to, each after the one before it. -/
def Gateway.trace (g : Gateway) : List Step → Backend → List Observed
  | [], _ => []
  | step :: steps, b =>
    let observed := step.run g b
    observed :: g.trace steps observed.backend

end Traces

def Event.isLookup : Event → Bool
  | .found _ | .missed _ | .lookupRefused _ | .lookupStalled _ => true
  | _ => false

def Event.isComputed : Event → Bool
  | .computed => true
  | _ => false

namespace Backend

variable {a b c : Backend} {more further : ℕ} {key text : String} {ttl : Option ℕ}

def computedCount (b : Backend) : ℕ :=
  b.log.countP Event.isComputed

theorem computedCount_lookup (b : Backend) (key : String) :
    (b.lookup key).2.computedCount = b.computedCount := by
  unfold lookup
  split
  · rfl
  · rfl
  · dsimp only
    split_ifs <;> rfl

theorem computedCount_store (b : Backend) (key text : String) (ttl : Option ℕ) :
    (b.store key text ttl).2.computedCount = b.computedCount := by
  unfold store
  split <;> rfl

theorem computedCount_computed (b : Backend) (takes : ℕ) :
    (b.computed takes).computedCount = b.computedCount + 1 :=
  List.countP_cons_of_pos rfl

/-- The second backend is the first one but for the locks, and for so many more lookups in its
log. -/
inductive SameButLookups (more : ℕ) (a : Backend) : Backend → Prop
  | intro (locks : InFlight) (log : List Event)
      (events : log.filter (!·.isLookup) = a.log.filter (!·.isLookup))
      (lookups : log.countP Event.isLookup = a.log.countP Event.isLookup + more) :
      SameButLookups more a { a with inFlight := locks, log := log }

namespace SameButLookups

theorem refl (b : Backend) : SameButLookups 0 b b :=
  .intro b.inFlight b.log rfl rfl

theorem trans (h : SameButLookups more a b) (h' : SameButLookups further b c) :
    SameButLookups (more + further) a c := by
  obtain ⟨_, _, hevents, hcount⟩ := h
  obtain ⟨locks, log, hevents', hcount'⟩ := h'
  exact .intro locks log (hevents'.trans hevents) (by rw [hcount', hcount, Nat.add_assoc])

theorem note (h : SameButLookups more a b) (event : Event) :
    SameButLookups more (a.note event) (b.note event) := by
  obtain ⟨locks, log, hevents, hcount⟩ := h
  refine .intro locks (event :: log) ?_ ?_
  · simp only [Backend.note, List.filter_cons, hevents]
  · simp only [Backend.note, List.countP_cons]
    omega

/-- A computation is no lookup. -/
theorem computedCount (h : SameButLookups more a b) : b.computedCount = a.computedCount := by
  obtain ⟨locks, log, hevents, -⟩ := h
  have hcount : ∀ events : List Event,
      events.countP Event.isComputed = (events.filter (!·.isLookup)).countP Event.isComputed := by
    intro events
    rw [List.countP_filter]
    refine List.countP_congr fun event _ => ?_
    cases event <;> simp [Event.isComputed, Event.isLookup]
  exact (hcount log).trans (hevents ▸ (hcount a.log).symm)

/-- One more lookup is in the log. -/
theorem noteLookup {event : Event} (h : event.isLookup) (b : Backend) :
    SameButLookups 1 b (b.note event) :=
  .intro b.inFlight (event :: b.log) (List.filter_cons_of_neg (by simp [h]))
    (List.countP_cons_of_pos h)

theorem withCache (h : SameButLookups more a b) (cache : CacheStore) :
    SameButLookups more { a with cache := cache } { b with cache := cache } := by
  obtain ⟨locks, log, hevents, hcount⟩ := h
  exact .intro locks log hevents hcount

theorem elapse (h : SameButLookups more a b) (milliseconds : ℕ) :
    SameButLookups more (a.elapse milliseconds) (b.elapse milliseconds) := by
  obtain ⟨locks, log, hevents, hcount⟩ := h
  exact .intro locks log hevents hcount

theorem computed (h : SameButLookups more a b) (takes : ℕ) :
    SameButLookups more (a.computed takes) (b.computed takes) :=
  (h.note .computed).elapse takes

theorem ready (h : SameButLookups more a b) (step : Step) :
    SameButLookups 0 (a.ready step) (b.ready step) := by
  obtain ⟨locks, log, -, -⟩ := h
  exact .intro locks [] rfl rfl

theorem enter (h : SameButLookups more a b) (owner : ℕ) (key : String) :
    SameButLookups more a (b.enter owner key) := by
  obtain ⟨_, log, hevents, hcount⟩ := h
  exact .intro _ log hevents hcount

theorem leave (h : SameButLookups more a b) (owner : ℕ) (key : String) :
    SameButLookups more a (b.leave owner key) := by
  obtain ⟨_, log, hevents, hcount⟩ := h
  exact .intro _ log hevents hcount

theorem lookup (h : SameButLookups more a b) (key : String) :
    (b.lookup key).1 = (a.lookup key).1 ∧
      SameButLookups more (a.lookup key).2 (b.lookup key).2 := by
  have hsame := h
  obtain ⟨locks, log, -, -⟩ := h
  -- both have one health, so that a split on the first backend's takes both calls apart
  rcases a with ⟨_, _, _ | _ | _, _, _, _, _⟩
  · exact ⟨rfl, (hsame.withCache _).note _⟩
  · exact ⟨rfl, hsame.note _⟩
  · exact ⟨rfl, hsame.note _⟩

theorem store (h : SameButLookups more a b) (key text : String) (ttl : Option ℕ) :
    (b.store key text ttl).1 = (a.store key text ttl).1 ∧
      SameButLookups more (a.store key text ttl).2 (b.store key text ttl).2 := by
  have hsame := h
  obtain ⟨locks, log, -, -⟩ := h
  rcases a with ⟨_, _, _, _ | _ | _, _, _, _⟩
  · exact ⟨rfl, (hsame.withCache _).note _⟩
  · exact ⟨rfl, hsame.note _⟩
  · exact ⟨rfl, hsame.note _⟩

end SameButLookups

/-- A key that is looked up again at once is answered the same, and only the log tells of it. -/
theorem lookup_again (b : Backend) (key : String) : ∃ event : Event, event.isLookup ∧
    (b.lookup key).2.lookup key = ((b.lookup key).1, (b.lookup key).2.note event) := by
  cases hhealth : b.lookups with
  | failing =>
    refine ⟨.lookupRefused key, rfl, ?_⟩
    simp only [lookup, note, hhealth]
  | stalled =>
    refine ⟨.lookupStalled key, rfl, ?_⟩
    simp only [lookup, note, hhealth]
  | healthy =>
    refine ⟨if (b.cache.get b.now key).1.isSome then .found key else .missed key, ?_, ?_⟩
    · split_ifs <;> rfl
    · simp only [lookup, note, hhealth, CacheStore.get_get]

end Backend

namespace Analysis

variable {α : Type} [Payload α] (g : Gateway) (key : String) (ttl : Option ℕ) (takes : ℕ)
  (outcome : Except Fault α)

/-- What is computed is then written. -/
theorem run_computeAndStore_eq (b : Backend) :
    (g.computeAndStore key ttl (compute outcome)).run.run (Backend.computing takes) b
      = match outcome with
        | .ok v =>
          let r := (b.computed takes).store key (Payload.write v) ttl
          ((r.1.within "cache set" g.timeout).map fun _ => v, r.2)
        | .error e => (.error e, b.computed takes) := by
  rw [Gateway.computeAndStore, run_bind]
  cases outcome with
  | error e => rfl
  | ok v =>
    change (g.set key v ttl >>= fun _ => pure v).run.run _ (b.computed takes) = _
    rw [run_bind, run_set_eq]
    dsimp only [Backend.computing, Backend.services]
    rcases (b.computed takes).store key (Payload.write v) ttl with ⟨_ | _ | _, _⟩ <;> rfl

theorem computedCount_computeAndStore (b : Backend) :
    ((g.computeAndStore key ttl (compute outcome)).run.run (Backend.computing takes)
      b).2.computedCount = b.computedCount + 1 := by
  rw [run_computeAndStore_eq, ← b.computedCount_computed takes]
  cases outcome with
  | error e => rfl
  | ok v => exact Backend.computedCount_store _ _ _ _

theorem inFlight_computeAndStore (b : Backend) :
    ((g.computeAndStore key ttl (compute outcome)).run.run (Backend.computing takes)
      b).2.inFlight = b.inFlight := by
  rw [run_computeAndStore_eq]
  cases outcome with
  | error e => rfl
  | ok v => exact Backend.inFlight_store _ _ _ _

variable {a b : Backend} {more : ℕ}

theorem sameButLookups_computeAndStore (h : a.SameButLookups more b) :
    let r := (g.computeAndStore key ttl (compute outcome)).run.run (Backend.computing takes) a
    let r' := (g.computeAndStore key ttl (compute outcome)).run.run (Backend.computing takes) b
    r'.1 = r.1 ∧ r.2.SameButLookups more r'.2 := by
  simp only [run_computeAndStore_eq]
  cases outcome with
  | error e => exact ⟨rfl, h.computed takes⟩
  | ok v =>
    obtain ⟨hreply, hsame⟩ := (h.computed takes).store key (Payload.write v) ttl
    dsimp only
    exact ⟨by rw [hreply], hsame⟩

/-- A request that takes its turn gives the same as one that does not. It only looks once more at
the key it computes, and the lock is gone when it is done. -/
theorem run_fetchInTurn (h : a.SameButLookups 0 b) (hcount : a.computedCount = 0)
    (hfree : b.inFlight.Free) :
    let r := (g.fetch key ttl (compute outcome)).run.run (Backend.computing takes) a
    let r' := (g.fetchInTurn key ttl (compute outcome)).run.run (Backend.computing takes) b
    r'.1 = r.1 ∧ r.2.SameButLookups r.2.computedCount r'.2 ∧ r'.2.inFlight.Free := by
  obtain ⟨hreply, hsame⟩ := h.lookup key
  replace hcount : (a.lookup key).2.computedCount = 0 :=
    (a.computedCount_lookup key).trans hcount
  replace hfree : (b.lookup key).2.inFlight.Free := by rwa [Backend.inFlight_lookup]
  rw [run_fetchInTurn_eq, run_fetch_eq]
  simp only [Backend.computing_lookup, Backend.computing_enter, Backend.computing_leave, hreply]
  rcases hread : g.reading (α := α) (a.lookup key).1 with e | _ | v
  · exact ⟨rfl, hcount ▸ hsame, hfree⟩
  · -- the second lookup, by the lock's holder
    obtain ⟨hreply', hsame'⟩ := (hsame.enter 0 key).lookup key
    obtain ⟨event, hevent, hagain⟩ := a.lookup_again key
    rw [hagain] at hreply' hsame'
    have hfetch := run_fetch_eq (Backend.computing takes) g key ((b.lookup key).2.enter 0 key) ttl
      (compute outcome)
    rw [Backend.computing_lookup, hreply', hread] at hfetch
    obtain ⟨hanswer, hmore⟩ := sameButLookups_computeAndStore g key ttl takes outcome
      ((Backend.SameButLookups.noteLookup hevent _).trans hsame')
    dsimp only at hfetch ⊢
    rw [hfetch, computedCount_computeAndStore, hcount]
    refine ⟨hanswer, hmore.leave 0 key, ?_⟩
    rw [Backend.leave, inFlight_computeAndStore, Backend.inFlight_lookup]
    exact hfree.leave_join 0 key
  · exact ⟨rfl, hcount ▸ hsame, hfree⟩

end Analysis

/-- The gateway with another strategy. -/
def Gateway.using (g : Gateway) (strategy : CacheStrategy) : Gateway :=
  { g with strategy := strategy }

/-- Two runs of one step that differ in nothing but the lookups, of which the second one has one
more for each computation. No lock is left. -/
structure Observed.SameButLookups (r r' : Observed) : Prop where
  answer : r'.answer = r.answer
  backend : r.backend.SameButLookups r.backend.computedCount r'.backend
  free : r'.backend.inFlight.Free

theorem Observed.SameButLookups.of {α : Type} {r r' : Except Fault α × Backend} (h : r'.1 = r.1)
    (hsame : r.2.SameButLookups r.2.computedCount r'.2) (hfree : r'.2.inFlight.Free) :
    (Observed.of r).SameButLookups (.of r') :=
  ⟨congrArg (Sigma.mk α) h, hsame, hfree⟩

section Strategies

variable {a b : Backend} {more : ℕ} (g : Gateway)

theorem Operation.run_strategies {α : Type} [Payload α] (operation : Operation α)
    (h : a.SameButLookups 0 b) (hcount : a.computedCount = 0) (hfree : b.inFlight.Free) :
    (operation.run (g.using .aside) a).SameButLookups
      (operation.run (g.using .singleFlight) b) := by
  cases operation with
  | get key =>
    obtain ⟨hreply, hsame⟩ := h.lookup key
    rw [← hcount, ← a.computedCount_lookup key] at hsame
    rw [run_get, run_get, hreply]
    refine .of rfl hsame ?_
    rwa [Backend.inFlight_lookup]
  | set key value ttl =>
    obtain ⟨hreply, hsame⟩ := h.store key (Payload.write value) ttl
    rw [← hcount, ← a.computedCount_store key (Payload.write value) ttl] at hsame
    rw [run_set, run_set, hreply]
    refine .of rfl hsame ?_
    rwa [Backend.inFlight_store]
  | getOrCompute key ttl takes outcome =>
    rw [run_getOrCompute, run_getOrCompute]
    obtain ⟨hanswer, hsame, hfree⟩ := Analysis.run_fetchInTurn g key (ttl.getD g.defaultTtl) takes
      outcome h hcount hfree
    exact .of hanswer hsame hfree
  | put key text ttl =>
    refine .of rfl ?_ hfree
    rw [← hcount] at h
    have hset : b.cache.set b.now key text ttl = a.cache.set a.now key text ttl := by
      obtain ⟨_, _, -, -⟩ := h
      rfl
    rw [hset]
    exact h.withCache _

theorem Step.run_strategies (step : Step) (h : a.SameButLookups more b) (hfree : b.inFlight.Free) :
    (step.run (g.using .aside) a).SameButLookups (step.run (g.using .singleFlight) b) :=
  letI := step.payload
  step.operation.run_strategies g (h.ready step) rfl hfree

/-- Whatever is done, the strategies differ in nothing but the lookups. -/
theorem Gateway.forall₂_strategies : ∀ (steps : List Step) {a b : Backend} {more : ℕ},
    a.SameButLookups more b → b.inFlight.Free →
      List.Forall₂ Observed.SameButLookups ((g.using .aside).trace steps a)
        ((g.using .singleFlight).trace steps b)
  | [], _, _, _, _, _ => .nil
  | step :: steps, _, _, _, h, hfree =>
    have hstep := step.run_strategies g h hfree
    .cons hstep (forall₂_strategies steps hstep.backend hstep.free)

end Strategies

end Bourse
