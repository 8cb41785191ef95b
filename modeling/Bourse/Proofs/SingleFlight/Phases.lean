import Mathlib.Data.List.Nodup
import Bourse.Proofs.Gateway.Requests

/-!
# Phases of a request

How far a request has got (`Phase`), and what that says about the queue at the key and about what
was stored (`Phase.Fits`). A step takes a request from one phase to the next (`Phase.exists_next`)
and leaves the other requests in theirs (`Phase.Fits.of_ne`). The program of a request tells whether
it computes (`Phase.eq_computing`).
-/

namespace Bourse

variable {α : Type} [Payload α]

/-- How far a request has got. -/
inductive Phase (α : Type) where
  | arriving
  | waiting
  /-- In its turn, about to look the key up again. -/
  | looking
  | computing (q : Program (Except Fault α))
  | leaving (v : α)
  | answered (outcome : Except Fault α)

namespace Phase

/-- What is left of a request in a phase. -/
def program (g : Gateway) (key : String) (r : Request α) : Phase α → Program (Except Fault α)
  | arriving => (g.fetchInTurn key r.ttl r.computation).run
  | waiting => .enter key (g.inTurn key r)
  | looking => g.inTurn key r
  | computing q => g.midway key r.ttl q
  | leaving v => .leave key (.done (.ok v))
  | answered outcome => .done outcome

/-- What a phase of the request `i` says about the queue at the key and about what was stored. -/
def Fits (key : String) (queue : List ℕ) (stored : Option (ℕ × α)) (i : ℕ) : Phase α → Prop
  | arriving => i ∉ queue
  | waiting => True
  | looking => queue.head? = some i
  | computing q => queue.head? = some i ∧ stored = none ∧ q.Avoids key ∧ q.Ends Recoverable
  | leaving v => queue.head? = some i ∧ stored.map Prod.snd = some v
  | answered outcome => i ∉ queue ∧ ∀ v, outcome = .ok v → stored.map Prod.snd = some v

/-- What has been stored after a step of the request `i`, which stores what it computed. -/
def award (i : ℕ) (stored : Option (ℕ × α)) : Phase α → Option (ℕ × α)
  | computing (.done (.ok v)) => some (i, v)
  | _ => stored

variable {key : String} {queue queue' : List ℕ} {stored : Option (ℕ × α)} {i j : ℕ}

theorem award_eq {p : Phase α} (hp : p.Fits key queue stored i) :
    p.award i stored = stored ∨
      ∃ v, p = computing (.done (.ok v)) ∧ p.award i stored = some (i, v) ∧ stored = none ∧
        queue.head? = some i := by
  unfold award
  split
  · next v => exact .inr ⟨v, rfl, rfl, hp.2.1, hp.1⟩
  · exact .inl rfl

/-- A step of one request leaves the others where they are. -/
theorem Fits.of_ne {p q : Phase α} (hq : q.Fits key queue stored j) (hj : j ≠ i)
    (hp : p.Fits key queue stored i) (hturned : Turned i queue queue') :
    q.Fits key queue' (p.award i stored) j := by
  have hmem := hturned.mem_iff hj
  have hhead := hturned.head?_of_ne hj
  have hkept : ∀ v, stored.map Prod.snd = some v →
      (p.award i stored).map Prod.snd = some v := by
    intro v hv
    rcases award_eq hp with h | ⟨_, -, -, hnone, -⟩
    · rwa [h]
    · rw [hnone] at hv
      cases hv
  cases q with
  | arriving => exact mt hmem.1 hq
  | waiting => trivial
  | looking => exact hhead hq
  | computing c =>
    refine ⟨hhead hq.1, ?_, hq.2.2⟩
    rcases award_eq hp with h | ⟨_, -, -, -, hi⟩
    · rw [h]
      exact hq.2.1
    · exact absurd (Option.some.inj (hq.1.symm.trans hi)) hj
  | leaving v => exact ⟨hhead hq.1, hkept v hq.2⟩
  | answered outcome => exact ⟨mt hmem.1 hq.1, fun v hv => hkept v (hq.2 v hv)⟩

end Phase

/-- A request whose computation leaves the key alone, gives values that are read back as themselves,
and asks for a time to live that lasts from one instant to the other. -/
structure Request.Proper (key : String) (first last : ℕ) (r : Request α) : Prop where
  avoids : r.computation.run.Avoids key
  recoverable : r.computation.run.Ends Recoverable
  lasts : ∀ seconds, r.ttl = some seconds → last < first + 1000 * seconds

namespace Phase

/-- What a step of the request `i` from the phase `p` to the phase `p'` does to the backend. -/
structure Next (key : String) (first last : ℕ) (stored : Option (ℕ × α)) (i : ℕ) (p p' : Phase α)
    (b b' : Backend) : Prop where
  carries : b'.Carries key first last (p.award i stored)
  turned : Turned i (b.inFlight.queue key) (b'.inFlight.queue key)
  fits : p'.Fits key (b'.inFlight.queue key) (p.award i stored) i
  failed : ∀ e, p' = answered (.error e) →
    p = answered (.error e) ∨ p = computing (.done (.error e))

variable {key : String} {first last : ℕ} {stored : Option (ℕ × α)} {i : ℕ} {b : Backend}
  (g : Gateway) {r : Request α}

theorem next_arriving (hb : b.Carries key first last stored)
    (hi : i ∉ b.inFlight.queue key) : ∃ p' : Phase α,
      (arriving.program g key r).advance i b = (p'.program g key r, (b.lookup key).2) ∧
        Next key first last stored i arriving p' b (b.lookup key).2 := by
  have hqueue : (b.lookup key).2.inFlight.queue key = b.inFlight.queue key :=
    congrArg (·.queue key) (b.inFlight_lookup key)
  rw [program, g.advance_fetchInTurn key i hb.lookups, hb.find?]
  cases hstored : stored.map Prod.snd with
  | some v =>
    refine ⟨answered (.ok v), rfl, hb.lookup key, hqueue ▸ .same, ⟨hqueue ▸ hi, fun w hw => ?_⟩,
      fun _ h => by cases h⟩
    cases hw
    exact hstored
  | none => exact ⟨waiting, rfl, hb.lookup key, hqueue ▸ .same, trivial, fun _ h => by cases h⟩

theorem next_waiting (hb : b.Carries key first last stored) : ∃ (p' : Phase α) (b' : Backend),
      (waiting.program g key r).advance i b = (p'.program g key r, b') ∧
        Next key first last stored i waiting p' b b' := by
  obtain ⟨b', hb', hcarries, hturned⟩ : ∃ b', (if (b.inFlight.handle? i key).isSome then b
        else b.enter i key) = b' ∧ b'.Carries key first last stored ∧
      Turned i (b.inFlight.queue key) (b'.inFlight.queue key) := by
    split_ifs with h
    · exact ⟨b, rfl, hb, .same⟩
    · exact ⟨_, rfl, hb.enter i key, InFlight.turned_join (mt InFlight.handle?_isSome.2 h) key⟩
  rw [program, Program.advance, hb']
  by_cases hholds : b'.inFlight.holds i key = true
  · exact ⟨looking, b', if_pos hholds, hcarries, hturned,
      (InFlight.holds_iff hcarries.inFlight).1 hholds, fun _ h => by cases h⟩
  · exact ⟨waiting, b', if_neg hholds, hcarries, hturned, trivial, fun _ h => by cases h⟩

theorem next_looking (hr : r.Proper key first last) (hb : b.Carries key first last stored)
    (hi : (b.inFlight.queue key).head? = some i) : ∃ p' : Phase α,
      (looking.program g key r).advance i b = (p'.program g key r, (b.lookup key).2) ∧
        Next key first last stored i looking p' b (b.lookup key).2 := by
  have hqueue : (b.lookup key).2.inFlight.queue key = b.inFlight.queue key :=
    congrArg (·.queue key) (b.inFlight_lookup key)
  rw [program, g.advance_inTurn key i hb.lookups, hb.find?]
  cases hstored : stored.map Prod.snd with
  | some v =>
    exact ⟨leaving v, rfl, hb.lookup key, hqueue ▸ .same, ⟨hqueue ▸ hi, hstored⟩,
      fun _ h => by cases h⟩
  | none =>
    exact ⟨computing r.computation.run, rfl, hb.lookup key, hqueue ▸ .same,
      ⟨hqueue ▸ hi, Option.map_eq_none_iff.1 hstored, hr.avoids, hr.recoverable⟩,
      fun _ h => by cases h⟩

/-- The first of the queue goes out of it. -/
theorem next_left {p : Phase α} {outcome : Except Fault α} (hb : b.Carries key first last stored)
    (hnodup : (b.inFlight.queue key).Nodup) (hi : (b.inFlight.queue key).head? = some i)
    (hp : p.award i stored = stored) (hv : ∀ v, outcome = .ok v → stored.map Prod.snd = some v)
    (he : ∀ e, outcome = .error e → p = computing (.done (.error e))) :
    Next key first last stored i p (answered outcome) b (b.leave i key) := by
  have hqueue : (b.leave i key).inFlight.queue key = (b.inFlight.queue key).erase i := by
    rw [Backend.leave, InFlight.queue_leave hb.inFlight, if_pos rfl]
  refine ⟨?_, hqueue ▸ .left hi, ⟨hqueue ▸ hnodup.not_mem_erase, ?_⟩, fun e h => ?_⟩
  · rw [hp]
    exact hb.leave i key
  · rw [hp]
    exact hv
  · exact .inr (he e (answered.inj h))

theorem next_computing (hr : r.Proper key first last) (hb : b.Carries key first last stored)
    (hnodup : (b.inFlight.queue key).Nodup) {q : Program (Except Fault α)}
    (hq : (computing q).Fits key (b.inFlight.queue key) stored i) :
    ∃ (p' : Phase α) (b' : Backend),
      ((computing q).program g key r).advance i b = (p'.program g key r, b') ∧
        Next key first last stored i (computing q) p' b b' := by
  obtain ⟨hi, hstored, havoids, hends⟩ := hq
  rcases hresult : q.result? with _ | outcome
  · -- the computation goes on
    obtain ⟨hcarries, hqueue⟩ := hb.advance havoids i
    have haward : (computing q).award i stored = stored := by
      unfold award
      split
      · next h =>
        cases h
        cases hresult
      · rfl
    refine ⟨computing (q.advance i b).1, (q.advance i b).2, ?_, ?_, hqueue ▸ .same, ?_,
      fun _ h => by cases h⟩
    · exact Program.advance_bind i hresult _ b
    · rw [haward]
      exact hcarries
    · rw [haward]
      exact ⟨hqueue ▸ hi, hstored, havoids.advance i b, hends.advance i b⟩
  · obtain rfl := Program.eq_done_of_result? hresult
    cases outcome with
    | ok v =>
      refine ⟨leaving v, _, g.advance_settle_ok key i hb.writes r.ttl v,
        hb.store_self (hends v rfl) hr.lasts i, ?_, ⟨?_, rfl⟩, fun _ h => by cases h⟩
      · rw [Backend.inFlight_store]
        exact .same
      · rw [Backend.inFlight_store]
        exact hi
    | error e =>
      refine ⟨answered (.error e), _, g.advance_settle_error key i r.ttl e,
        next_left hb hnodup hi rfl (fun _ h => by cases h) fun e' he' => ?_⟩
      cases he'
      rfl

/-- A step of a request takes it from one phase to another. -/
theorem exists_next (hr : r.Proper key first last) (hb : b.Carries key first last stored)
    (hnodup : (b.inFlight.queue key).Nodup) : ∀ {p : Phase α},
    p.Fits key (b.inFlight.queue key) stored i → ∃ (p' : Phase α) (b' : Backend),
      (p.program g key r).advance i b = (p'.program g key r, b') ∧
        Next key first last stored i p p' b b'
  | arriving, hp =>
    have ⟨p', hrun, hnext⟩ := next_arriving g hb hp
    ⟨p', _, hrun, hnext⟩
  | waiting, _ => next_waiting g hb
  | looking, hp =>
    have ⟨p', hrun, hnext⟩ := next_looking g hr hb hp
    ⟨p', _, hrun, hnext⟩
  | computing q, hp => next_computing g hr hb hnodup hp
  | leaving v, hp => ⟨answered (.ok v), _, rfl, next_left hb hnodup hp.1 rfl
      (fun w hw => by cases hw; exact hp.2) (fun _ h => by cases h)⟩
  | answered outcome, hp => ⟨answered outcome, b, rfl, hb, .same, hp, fun e he => .inl he⟩

end Phase

namespace Phase

variable {g : Gateway} {key : String} {r : Request α} {p : Phase α}

/-- The next step of a request that does not compute. -/
def Outside (key : String) : Program (Except Fault α) → Prop
  | .done _ => True
  | .lookup k _ | .enter k _ | .leave k (.done (.ok _)) => k = key
  | _ => False

theorem outside_program (g : Gateway) (key : String) (r : Request α) :
    ∀ p : Phase α, Outside key (p.program g key r) ∨ ∃ q, p = computing q
  | arriving | waiting | looking | leaving _ => .inl rfl
  | answered _ => .inl trivial
  | computing q => .inr ⟨q, rfl⟩

theorem not_outside_midway {ttl : Option ℕ} {q : Program (Except Fault α)} (hq : q.Avoids key) :
    ¬ Outside key (g.midway key ttl q) := by
  intro h
  cases q with
  | done outcome => cases outcome <;> exact h
  | lookup k next => exact hq.1 h
  | store k text ttl next => exact h
  | ask statement next => exact h
  | enter k next => exact hq.1 h
  | leave k next =>
    change Outside key (.leave k (next.bind _)) at h
    unfold Outside at h
    split at h <;> simp_all [Program.Avoids]
  | compute next => exact h

/-- Only a request that computes is midway. -/
theorem eq_computing {ttl : Option ℕ} {q : Program (Except Fault α)} (hq : q.Avoids key)
    (h : p.program g key r = g.midway key ttl q) : ∃ q', p = computing q' := by
  rcases outside_program g key r p with hout | hcomputing
  · rw [h] at hout
    exact absurd hout (not_outside_midway hq)
  · exact hcomputing

theorem eq_done_of_midway {ttl : Option ℕ} {q : Program (Except Fault α)} (hq : q.Avoids key)
    {outcome : Except Fault α} (h : g.midway key ttl q = g.midway key ttl (.done outcome)) :
    q = .done outcome := by
  have hsettle : ∀ v : α, ∃ next, g.settle key ttl (.ok v) = .store key (Payload.write v) ttl next ∧
      next (.answered ()) = .leave key (.done (.ok v)) := fun v => ⟨_, rfl, rfl⟩
  cases outcome with
  | ok v =>
    obtain ⟨next, hv, hnext⟩ := hsettle v
    change _ = g.settle key ttl (.ok v) at h
    rw [hv] at h
    cases q with
    | done outcome =>
      cases outcome with
      | ok w =>
        obtain ⟨next', hw, hnext'⟩ := hsettle w
        change g.settle key ttl (.ok w) = _ at h
        rw [hw, Program.store.injEq] at h
        rw [h.2.2.2, hnext] at hnext'
        cases hnext'
        rfl
      | error e => cases h
    | store k text ttl' next' =>
      change Program.store k text ttl' (fun reply => (next' reply).bind _) = _ at h
      rw [Program.store.injEq] at h
      exact absurd h.1 hq.1
    | _ => cases h
  | error e =>
    change _ = Program.leave key (.done (Except.error e)) at h
    cases q with
    | done outcome =>
      cases outcome with
      | ok w =>
        obtain ⟨next', hw, -⟩ := hsettle w
        change g.settle key ttl (.ok w) = _ at h
        rw [hw] at h
        cases h
      | error e' =>
        cases h
        rfl
    | leave k next =>
      change Program.leave k (next.bind _) = _ at h
      rw [Program.leave.injEq] at h
      exact absurd h.1 hq.1
    | _ => cases h

theorem eq_answered {outcome : Except Fault α} (h : p.program g key r = .done outcome) :
    p = answered outcome := by
  cases p with
  | answered o =>
    cases h
    rfl
  | computing q =>
    cases q with
    | done o => cases o <;> cases h
    | _ => cases h
  | _ => cases h

end Phase

end Bourse
