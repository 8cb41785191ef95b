import Mathlib.Data.List.Basic
import Bourse.Gateway
import Bourse.Proofs.Cache.InFlight
import Bourse.Proofs.Cache.Store
import Bourse.Proofs.Program.Steps

/-!
# Requests for a key

What a request for the value of a key does with each of its steps: the first lookup
(`advance_fetchInTurn`), the second one (`advance_inTurn`), and the store of what was computed
(`advance_settle_ok`). Steps that are not about the key keep what a backend carries under it
(`Backend.Carries.advance`).
-/

namespace Bourse

variable {α : Type} [Payload α]

/-- A request for the value of a key. -/
structure Request (α : Type) where
  ttl : Option ℕ
  computation : Analysis α

namespace Gateway

/-- What a request still does in its turn when its computation has come to an outcome. -/
def settle (g : Gateway) (key : String) (ttl : Option ℕ) (outcome : Except Fault α) :
    Program (Except Fault α) :=
  (do let outcome ← Analysis.attempt (g.computeAndStore key ttl (Analysis.ofExcept outcome))
      Analysis.leave key
      outcome : Analysis α).run

/-- A request in its turn whose computation has got to `q`. -/
def midway (g : Gateway) (key : String) (ttl : Option ℕ) (q : Program (Except Fault α)) :
    Program (Except Fault α) :=
  q.bind (g.settle key ttl)

/-- A request that has just got its turn. -/
def inTurn (g : Gateway) (key : String) (r : Request α) : Program (Except Fault α) :=
  (do let outcome ← Analysis.attempt (g.fetch key r.ttl r.computation)
      Analysis.leave key
      outcome : Analysis α).run

section Steps

variable (g : Gateway) (key : String) (i : ℕ) {b : Backend}

theorem run_computeAndStore (ttl : Option ℕ) (computation : Analysis α) :
    (do let outcome ← Analysis.attempt (g.computeAndStore key ttl computation)
        Analysis.leave key
        outcome : Analysis α).run = g.midway key ttl computation.run := by
  change ((Program.bind _ _).bind _).bind _ = Program.bind _ _
  rw [Program.bind_assoc, Program.bind_assoc]
  exact congrArg _ (funext fun outcome => (Program.bind_assoc _ _ _).symm)

theorem lookup_fst (hb : b.lookups = .healthy) :
    (b.lookup key).1 = .answered (b.cache.find? b.now key) := by
  rw [Backend.lookup, hb, ← CacheStore.get_fst]

theorem advance_get {β : Type} (hb : b.lookups = .healthy) (k : Option α → Analysis β) :
    (g.get key >>= k).run.advance i b
      = ((k ((b.cache.find? b.now key).bind Payload.read)).run, (b.lookup key).2) := by
  obtain ⟨next, hrun, hnext⟩ : ∃ next, (g.get key >>= k).run = .lookup key next ∧
      ∀ text, next (.answered text) = (k (text.bind Payload.read)).run := ⟨_, rfl, fun _ => rfl⟩
  rw [hrun, Program.advance, lookup_fst key hb, hnext]

/-- The first lookup of a request answers it, or it goes on to the lock. -/
theorem advance_fetchInTurn (hb : b.lookups = .healthy) (r : Request α) :
    (g.fetchInTurn key r.ttl r.computation).run.advance i b
      = (match (b.cache.find? b.now key).bind (Payload.read (α := α)) with
          | some hit => .done (.ok hit)
          | none => .enter key (g.inTurn key r), (b.lookup key).2) := by
  rw [fetchInTurn, advance_get g key i hb]
  cases (b.cache.find? b.now key).bind (Payload.read (α := α)) <;> rfl

/-- The second lookup of a request ends its turn, or its computation begins. -/
theorem advance_inTurn (hb : b.lookups = .healthy) (r : Request α) :
    (g.inTurn key r).advance i b
      = (match (b.cache.find? b.now key).bind (Payload.read (α := α)) with
          | some hit => .leave key (.done (.ok hit))
          | none => g.midway key r.ttl r.computation.run, (b.lookup key).2) := by
  obtain ⟨next, hrun, hnext⟩ : ∃ next, g.inTurn key r = .lookup key next ∧
      ∀ text, next (.answered text)
        = (do let outcome ← Analysis.attempt (match text.bind (Payload.read (α := α)) with
                | some hit => pure hit
                | none => g.computeAndStore key r.ttl r.computation)
              Analysis.leave key
              outcome : Analysis α).run := by
    refine ⟨_, rfl, fun text => ?_⟩
    change Program.bind (Program.bind (Program.bind (.done (Except.ok (text.bind Payload.read))) _)
      _) _ = _
    cases text.bind (Payload.read (α := α)) <;> rfl
  rw [hrun, Program.advance, lookup_fst key hb, hnext]
  cases (b.cache.find? b.now key).bind (Payload.read (α := α)) with
  | some hit => rfl
  | none => exact congrArg (·, _) (g.run_computeAndStore key r.ttl r.computation)

theorem advance_settle_ok (hb : b.writes = .healthy) (ttl : Option ℕ) (v : α) :
    (g.settle key ttl (.ok v)).advance i b
      = (.leave key (.done (.ok v)), (b.store key (Payload.write v) ttl).2) := by
  obtain ⟨next, hrun, hnext⟩ :
      ∃ next, g.settle key ttl (.ok v) = .store key (Payload.write v) ttl next
      ∧ next (.answered ()) = .leave key (.done (.ok v)) := ⟨_, rfl, rfl⟩
  have hreply : (b.store key (Payload.write v) ttl).1 = .answered () := by
    rw [Backend.store, hb]
  rw [hrun, Program.advance, hreply, hnext]

theorem advance_settle_error (ttl : Option ℕ) (e : Fault) :
    (g.settle key ttl (.error e : Except Fault α)).advance i b
      = (.done (.error e), b.leave i key) := rfl

end Steps

end Gateway

/-- A value that is read back as itself. -/
def Recoverable (outcome : Except Fault α) : Prop :=
  ∀ v, outcome = .ok v → Payload.read (Payload.write v) = some v

/-- A working backend between two instants, where nothing is kept under the key but what was stored
by one of the requests. -/
structure Backend.Carries (key : String) (first last : ℕ) (stored : Option (ℕ × α)) (b : Backend) :
    Prop where
  lookups : b.lookups = .healthy
  writes : b.writes = .healthy
  since : first ≤ b.now
  upTo : b.now ≤ last
  inFlight : b.inFlight.WellFormed
  cold : stored = none → b.cache.Cold b.now key
  warm : ∀ j v, stored = some (j, v) →
    b.cache.Warm last key (Payload.write v) ∧ Payload.read (Payload.write v) = some v

namespace Backend

variable {key : String} {first last : ℕ} {stored : Option (ℕ × α)} {b : Backend}

namespace Carries

theorem find? (h : b.Carries key first last stored) :
    (b.cache.find? b.now key).bind Payload.read = stored.map Prod.snd := by
  rcases hstored : stored with _ | ⟨j, v⟩
  · rw [(h.cold hstored).find?]
    rfl
  · obtain ⟨hwarm, hread⟩ := h.warm j v hstored
    rw [hwarm.find? h.upTo, Option.bind_some, hread]
    rfl

theorem elapse (h : b.Carries key first last stored) {milliseconds : ℕ}
    (hlast : b.now + milliseconds ≤ last) :
    (b.elapse milliseconds).Carries key first last stored :=
  ⟨h.lookups, h.writes, Nat.le_trans h.since (Nat.le_add_right _ _), hlast, h.inFlight,
    fun hstored => (h.cold hstored).later (Nat.le_add_right _ _), h.warm⟩

theorem lookup (h : b.Carries key first last stored) (k : String) :
    (b.lookup k).2.Carries key first last stored := by
  rw [Backend.lookup, h.lookups]
  exact ⟨rfl, h.writes, h.since, h.upTo, h.inFlight,
    fun hstored => (h.cold hstored).get _ _,
    fun j v hstored => (h.warm j v hstored).imp_left fun hwarm => hwarm.get h.upTo _⟩

theorem store (h : b.Carries key first last stored) {k : String} (hk : k ≠ key) (text : String)
    (ttl : Option ℕ) : (b.store k text ttl).2.Carries key first last stored := by
  rw [Backend.store, h.writes]
  exact ⟨h.lookups, rfl, h.since, h.upTo, h.inFlight,
    fun hstored => (h.cold hstored).set hk _ _ _,
    fun j v hstored => (h.warm j v hstored).imp_left fun hwarm => hwarm.set h.upTo hk _ _⟩

theorem store_self (h : b.Carries key first last stored) {v : α} {ttl : Option ℕ}
    (hv : Payload.read (Payload.write v) = some v)
    (httl : ∀ seconds, ttl = some seconds → last < first + 1000 * seconds) (i : ℕ) :
    (b.store key (Payload.write v) ttl).2.Carries key first last (some (i, v)) := by
  rw [Backend.store, h.writes]
  refine ⟨h.lookups, rfl, h.since, h.upTo, h.inFlight, fun hnone => ?_, fun j w hw => ?_⟩
  · cases hnone
  obtain ⟨-, rfl⟩ := Prod.mk.inj (Option.some.inj hw)
  exact ⟨CacheStore.warm_set _ _ _ h.upTo fun seconds hs =>
    Nat.lt_of_lt_of_le (httl seconds hs) (Nat.add_le_add_right h.since _), hv⟩

theorem ask (h : b.Carries key first last stored) (statement : Statement) :
    (b.ask statement).2.Carries key first last stored :=
  ⟨h.lookups, h.writes, h.since, h.upTo, h.inFlight, h.cold, h.warm⟩

theorem note (h : b.Carries key first last stored) (event : Event) :
    (b.note event).Carries key first last stored :=
  ⟨h.lookups, h.writes, h.since, h.upTo, h.inFlight, h.cold, h.warm⟩

theorem enter (h : b.Carries key first last stored) (i : ℕ) (k : String) :
    (b.enter i k).Carries key first last stored :=
  ⟨h.lookups, h.writes, h.since, h.upTo, h.inFlight.join i k, h.cold, h.warm⟩

theorem leave (h : b.Carries key first last stored) (i : ℕ) (k : String) :
    (b.leave i k).Carries key first last stored :=
  ⟨h.lookups, h.writes, h.since, h.upTo, h.inFlight.leave i k, h.cold, h.warm⟩

end Carries

/-- What a program does that is not about the key is nothing to its requests. -/
theorem Carries.advance {β : Type} (h : b.Carries key first last stored) {q : Program β}
    (hq : q.Avoids key) (i : ℕ) : (q.advance i b).2.Carries key first last stored ∧
      (q.advance i b).2.inFlight.queue key = b.inFlight.queue key := by
  cases q with
  | done a => exact ⟨h, rfl⟩
  | lookup k next => exact ⟨h.lookup k, congrArg (·.queue key) (b.inFlight_lookup k)⟩
  | store k text ttl next =>
    exact ⟨h.store hq.1 text ttl, congrArg (·.queue key) (b.inFlight_store k text ttl)⟩
  | ask statement next => exact ⟨h.ask statement, rfl⟩
  | enter k next =>
    have hjoin : (b.enter i k).inFlight.queue key = b.inFlight.queue key := by
      rw [Backend.enter, InFlight.queue_join, if_neg hq.1.symm]
    simp only [Program.advance]
    split_ifs
    · exact ⟨h, rfl⟩
    · exact ⟨h, rfl⟩
    · exact ⟨h.enter i k, hjoin⟩
    · exact ⟨h.enter i k, hjoin⟩
  | leave k next =>
    refine ⟨h.leave i k, ?_⟩
    rw [Program.advance, Backend.leave, InFlight.queue_leave h.inFlight, if_neg hq.1.symm]
  | compute next => exact ⟨h.note .computed, rfl⟩

end Backend

end Bourse
