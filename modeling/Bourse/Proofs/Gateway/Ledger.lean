import Bourse.Proofs.Cache.Ledger
import Bourse.Proofs.Gateway.Operations

/-!
# What a gateway comes to

A ledger tells what operations come to from the writes that succeeded alone, with no store, no
sweeps, no locks and no strategy in it (`Operation.expected`): what a key holds is the text of the
last write of it, unless its time to live has run out (`Ledger.textAt`). A gateway with either
strategy follows the ledger step by step, and the two differ in nothing but the lookups
(`Gateway.trace_meets_ledger`).
-/

namespace Bourse

/-- What comes of a call to a store in some health. -/
def Health.attempt {β : Type} (call : String) (timeout : ℕ) (done : β) : Health → Except Fault β
  | .healthy => .ok done
  | .failing => .error (.cache (call ++ " refused"))
  | .stalled => .error (.timeout ("cache " ++ call) timeout)

/-- The present value of a key; a text that does not decode is none. -/
def Ledger.value? {α : Type} [Payload α] (key : String) (l : Ledger) : Option α :=
  (l.textAt l.now key).bind Payload.read

/-- What is expected of a step: its answer, how often it computes, and the ledger after it. -/
structure Expected where
  answer : Answer
  computations : ℕ
  ledger : Ledger

section Expectations

variable {α : Type} [Payload α] (timeout : ℕ) (standard : Option ℕ)

/-- What is expected of a computation and the write of its value. -/
def Ledger.compute (writes : Health) (key : String) (ttl : Option ℕ) (outcome : Except Fault α)
    (l : Ledger) : Expected :=
  match outcome with
  | .error fault => ⟨⟨α, .error fault⟩, 1, l⟩
  | .ok value =>
    match writes.attempt "set" timeout (l.write key (Payload.write value) ttl) with
    | .ok written => ⟨⟨α, .ok value⟩, 1, written⟩
    | .error fault => ⟨⟨α, .error fault⟩, 1, l⟩

def Operation.expected (lookups writes : Health) (l : Ledger) : Operation α → Expected
  | .get key => ⟨⟨Option α, lookups.attempt "get" timeout (l.value? key)⟩, 0, l⟩
  | .set key value ttl =>
    match writes.attempt "set" timeout (l.write key (Payload.write value) ttl) with
    | .ok written => ⟨⟨Unit, .ok ()⟩, 0, written⟩
    | .error fault => ⟨⟨Unit, .error fault⟩, 0, l⟩
  | .getOrCompute key ttl takes outcome =>
    match lookups.attempt "get" timeout (l.value? key) with
    | .error fault => ⟨⟨α, .error fault⟩, 0, l⟩
    | .ok (some hit) => ⟨⟨α, .ok hit⟩, 0, l⟩
    | .ok none => (l.elapse takes).compute timeout writes key (ttl.getD standard) outcome
  | .put key text ttl => ⟨⟨Unit, .ok ()⟩, 0, l.write key text ttl⟩

def Step.expected (step : Step) (l : Ledger) : Expected :=
  letI := step.payload
  step.operation.expected timeout standard step.lookups step.writes (l.elapse step.after)

/-- What is expected of some steps, of each after the one before it. -/
def Ledger.trace : List Step → Ledger → List Expected
  | [], _ => []
  | step :: steps, l =>
    let expected := step.expected timeout standard l
    expected :: Ledger.trace steps expected.ledger

end Expectations

/-- From now on every key has the ledger's text, in at most one entry, and no lock is left. -/
structure Backend.Agrees (b : Backend) (l : Ledger) : Prop where
  now : b.now = l.now
  texts : ∀ instant, l.now ≤ instant → ∀ key, b.cache.find? instant key = l.textAt instant key
  keyed : b.cache.Keyed
  free : b.inFlight.Free

namespace Backend.Agrees

variable {b : Backend} {l : Ledger} {key text : String} {ttl : Option ℕ}

theorem elapse (h : b.Agrees l) (milliseconds : ℕ) :
    (b.elapse milliseconds).Agrees (l.elapse milliseconds) where
  now := congrArg (· + milliseconds) h.now
  texts instant hle := h.texts instant (Nat.le_trans (Nat.le_add_right _ _) hle)
  keyed := h.keyed
  free := h.free

theorem ready (h : b.Agrees l) (step : Step) : (b.ready step).Agrees (l.elapse step.after) := by
  obtain ⟨hnow, htexts, hkeyed, hfree⟩ := h.elapse step.after
  exact ⟨hnow, htexts, hkeyed, hfree⟩

theorem computed (h : b.Agrees l) (takes : ℕ) : (b.computed takes).Agrees (l.elapse takes) := by
  obtain ⟨hnow, htexts, hkeyed, hfree⟩ := h.elapse takes
  exact ⟨hnow, htexts, hkeyed, hfree⟩

theorem withSet (h : b.Agrees l) (key text : String) (ttl : Option ℕ) :
    ({ b with cache := b.cache.set b.now key text ttl } : Backend).Agrees
      (l.write key text ttl) where
  now := h.now
  texts instant hle other := by
    have hset := h.keyed.find?_set (Nat.le_trans (Nat.le_of_eq h.now) hle) other key text ttl
    rw [h.texts instant hle, h.now, ← Ledger.textAt_write] at hset
    exact h.now ▸ hset
  keyed := h.keyed.set _ _ _ _
  free := h.free

theorem lookup (h : b.Agrees l) (key : String) : (b.lookup key).2.Agrees l := by
  unfold Backend.lookup
  split
  · exact ⟨h.now, h.texts, h.keyed, h.free⟩
  · exact ⟨h.now, h.texts, h.keyed, h.free⟩
  · refine ⟨h.now, fun instant hle other => ?_, h.keyed.get _ _, h.free⟩
    exact (h.keyed.find?_get (h.now ▸ hle) other key).trans (h.texts instant hle other)

theorem reading {α : Type} [Payload α] (h : b.Agrees l) (g : Gateway) (key : String) :
    g.reading (α := α) (b.lookup key).1 = b.lookups.attempt "get" g.timeout (l.value? key) := by
  unfold Backend.lookup
  cases b.lookups with
  | healthy =>
    dsimp only
    rw [CacheStore.get_fst, h.texts b.now (Nat.le_of_eq h.now.symm), h.now]
    rfl
  | failing => rfl
  | stalled => rfl

theorem store (h : b.Agrees l) (timeout : ℕ) (key text : String) (ttl : Option ℕ) :
    (b.writes.attempt "set" timeout (l.write key text ttl) = .ok (l.write key text ttl) ∧
        (b.store key text ttl).1.within "cache set" timeout = .ok () ∧
        (b.store key text ttl).2.Agrees (l.write key text ttl)) ∨
      ∃ fault, b.writes.attempt "set" timeout (l.write key text ttl) = .error fault ∧
        (b.store key text ttl).1.within "cache set" timeout = .error fault ∧
        (b.store key text ttl).2.Agrees l := by
  unfold Backend.store
  cases b.writes with
  | healthy =>
    obtain ⟨hnow, htexts, hkeyed, hfree⟩ := h.withSet key text ttl
    exact .inl ⟨rfl, rfl, hnow, htexts, hkeyed, hfree⟩
  | failing => exact .inr ⟨_, rfl, rfl, h.now, h.texts, h.keyed, h.free⟩
  | stalled => exact .inr ⟨_, rfl, rfl, h.now, h.texts, h.keyed, h.free⟩

end Backend.Agrees

/-- A step came to what was expected of it. -/
structure Observed.Meets (r : Observed) (e : Expected) : Prop where
  answer : r.answer = e.answer
  computations : r.backend.computedCount = e.computations
  agrees : r.backend.Agrees e.ledger

section Steps

variable {α : Type} [Payload α] {b : Backend} {l : Ledger} (g : Gateway)

theorem Analysis.meets_computeAndStore (h : b.Agrees l) (hcount : b.computedCount = 0)
    (key : String) (ttl : Option ℕ) (takes : ℕ) (outcome : Except Fault α) :
    (Observed.of ((g.computeAndStore key ttl (compute outcome)).run.run (Backend.computing takes)
      b)).Meets ((l.elapse takes).compute g.timeout b.writes key ttl outcome) := by
  have hcomputed : (b.computed takes).computedCount = 1 := by
    rw [Backend.computedCount_computed, hcount]
  rw [run_computeAndStore_eq]
  cases outcome with
  | error fault => exact ⟨rfl, hcomputed, h.computed takes⟩
  | ok value =>
    have hwrites : b.writes = (b.computed takes).writes := rfl
    rw [← (b.computed takes).computedCount_store key (Payload.write value) ttl] at hcomputed
    rw [hwrites, Ledger.compute]
    dsimp only
    obtain ⟨hattempt, hreply, hagrees⟩ | ⟨fault, hattempt, hreply, hagrees⟩ :=
      (h.computed takes).store g.timeout key (Payload.write value) ttl
    · rw [hattempt, hreply]
      exact ⟨rfl, hcomputed, hagrees⟩
    · rw [hattempt, hreply]
      exact ⟨rfl, hcomputed, hagrees⟩

namespace Operation

theorem meets_aside (operation : Operation α) (h : b.Agrees l) (hcount : b.computedCount = 0) :
    (operation.run (g.using .aside) b).Meets
      (operation.expected g.timeout g.defaultTtl b.lookups b.writes l) := by
  cases operation with
  | get key =>
    rw [run_get, h.reading]
    exact ⟨rfl, (b.computedCount_lookup key).trans hcount, h.lookup key⟩
  | set key value ttl =>
    rw [← b.computedCount_store key (Payload.write value) ttl] at hcount
    rw [run_set, expected]
    obtain ⟨hattempt, hreply, hagrees⟩ | ⟨fault, hattempt, hreply, hagrees⟩ :=
      h.store g.timeout key (Payload.write value) ttl
    · rw [hattempt]
      exact ⟨congrArg (Sigma.mk Unit) hreply, hcount, hagrees⟩
    · rw [hattempt]
      exact ⟨congrArg (Sigma.mk Unit) hreply, hcount, hagrees⟩
  | getOrCompute key ttl takes outcome =>
    -- the lookup leaves the agreement, so a miss goes on from the ledger as it was
    rw [← b.computedCount_lookup key] at hcount
    rw [run_getOrCompute, expected]
    change (Observed.of ((g.fetch key _ (Analysis.compute outcome)).run.run _ b)).Meets _
    rw [Analysis.run_fetch_eq, Backend.computing_lookup, h.reading]
    rcases b.lookups.attempt "get" g.timeout (l.value? (α := α) key) with fault | _ | hit
    · exact ⟨rfl, hcount, h.lookup key⟩
    · rw [← b.writes_lookup key]
      exact Analysis.meets_computeAndStore g (h.lookup key) hcount key _ takes outcome
    · exact ⟨rfl, hcount, h.lookup key⟩
  | put key text ttl => exact ⟨rfl, hcount, h.withSet key text ttl⟩

end Operation

end Steps

/-- What is expected does not depend on how often a key is looked up. -/
theorem Observed.Meets.of_sameButLookups {r r' : Observed} {e : Expected} (h : r.Meets e)
    (hsame : r.SameButLookups r') : r'.Meets e := by
  obtain ⟨hanswer, hbackend, hfree⟩ := hsame
  obtain ⟨hnow, htexts, hkeyed, -⟩ := h.agrees
  refine ⟨hanswer.trans h.answer, hbackend.computedCount.trans h.computations, ?_⟩
  generalize r'.backend = b at hbackend hfree
  obtain ⟨locks, log, -, -⟩ := hbackend
  exact ⟨hnow, htexts, hkeyed, hfree⟩

theorem Step.meets (g : Gateway) (step : Step) {b : Backend} {l : Ledger} (h : b.Agrees l) :
    (step.run g b).Meets (step.expected g.timeout g.defaultTtl l) := by
  let := step.payload
  have hside := step.operation.meets_aside g (h.ready step) rfl
  cases hstrategy : g.strategy with
  | aside =>
    have hg : g = g.using .aside := by rw [← hstrategy]; rfl
    rw [hg]
    exact hside
  | singleFlight =>
    have hg : g = g.using .singleFlight := by rw [← hstrategy]; rfl
    rw [hg]
    exact hside.of_sameButLookups (step.run_strategies g (.refl b) h.free)

namespace Gateway

theorem forall₂_meets (g : Gateway) : ∀ (steps : List Step) {b : Backend} {l : Ledger},
    b.Agrees l →
      List.Forall₂ Observed.Meets (g.trace steps b) (Ledger.trace g.timeout g.defaultTtl steps l)
  | [], _, _, _ => .nil
  | step :: steps, _, _, h =>
    have hstep := step.meets g h
    .cons hstep (forall₂_meets g steps hstep.agrees)

/-- Over a store that begins empty every step of a gateway comes to what is expected of it, with
either strategy. When requests take turns at a key, nothing is different but the lookups, one more
for each computation. -/
theorem trace_meets_ledger (g : Gateway) (steps : List Step) (purgeEvery now : ℕ)
    (source : RowSource) :
    let b : Backend :=
      { Backend.fresh source with now := now, cache := CacheStore.empty purgeEvery }
    List.Forall₂ Observed.Meets (g.trace steps b)
        (Ledger.trace g.timeout g.defaultTtl steps ⟨now, []⟩) ∧
      List.Forall₂ Observed.SameButLookups ((g.using .aside).trace steps b)
        ((g.using .singleFlight).trace steps b) := by
  intro b
  have hagrees : b.Agrees ⟨now, []⟩ :=
    ⟨rfl, fun _ _ _ => rfl, CacheStore.keyed_empty purgeEvery, InFlight.free_empty⟩
  exact ⟨g.forall₂_meets steps hagrees,
    g.forall₂_strategies steps (.refl b) hagrees.free⟩

end Gateway

end Bourse
