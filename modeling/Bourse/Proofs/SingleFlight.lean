import Mathlib.Data.List.Induction
import Bourse.Proofs.SingleFlight.Phases

/-!
# Single flight

Requests for one cold key take steps in any order. Each of them is in some phase, only the first of
the queue at the key can be looking again, computing or about to leave, and as long as some request
computes nothing has been stored yet (`Flight`). Every step keeps this (`Flight.step`), and it gives
what the lock is for: one computation at a time, one value for all requests that succeed, and no
lock left in the end (`single_flight`).
-/

namespace Bourse

variable {α : Type} [Payload α]

/-- Requests for a key, each of them at its start, on one backend. -/
def Gateway.flight (g : Gateway) (key : String) (requests : List (Request α)) (b : Backend) :
    Crew (Except Fault α) :=
  ⟨requests.map fun r => (g.getOrComputeFor key r.ttl r.computation).run, b⟩

/-- Every request is in a phase that fits. -/
structure Flight (g : Gateway) (key : String) (first last : ℕ) (requests : List (Request α))
    (stored : Option (ℕ × α)) (phase : ℕ → Phase α) (c : Crew (Except Fault α)) : Prop where
  programs : ∀ i, c.programs[i]? = requests[i]?.map fun r => (phase i).program g key r
  carries : c.backend.Carries key first last stored
  nodup : (c.backend.inFlight.queue key).Nodup
  queued : ∀ i ∈ c.backend.inFlight.queue key, i < requests.length
  fits : ∀ i < requests.length,
    (phase i).Fits key (c.backend.inFlight.queue key) stored i

namespace Flight

variable {g : Gateway} {key : String} {first last : ℕ} {requests : List (Request α)}
  {stored : Option (ℕ × α)} {phase : ℕ → Phase α} {c : Crew (Except Fault α)}

theorem start (hg : g.strategy = .singleFlight) {b : Backend} {last : ℕ}
    (hlookups : b.lookups = .healthy) (hwrites : b.writes = .healthy)
    (hflight : b.inFlight = .empty) (hcold : b.cache.Cold b.now key) (hlast : b.now ≤ last) :
    Flight g key b.now last requests none (fun _ => .arriving) (g.flight key requests b) where
  programs i := by
    rw [Gateway.flight, List.getElem?_map]
    simp only [Gateway.getOrComputeFor, hg, Phase.program]
  carries := by
    refine ⟨hlookups, hwrites, Nat.le_refl _, hlast, ?_, fun _ => hcold, fun _ _ h => by cases h⟩
    change b.inFlight.WellFormed
    rw [hflight]
    exact InFlight.wellFormed_empty
  nodup := by
    change (b.inFlight.queue key).Nodup
    rw [hflight]
    exact List.nodup_nil
  queued i hi := by
    change i ∈ b.inFlight.queue key at hi
    rw [hflight] at hi
    cases hi
  fits i _ := by
    change i ∉ b.inFlight.queue key
    rw [hflight]
    exact List.not_mem_nil

theorem wait (h : Flight g key first last requests stored phase c) {milliseconds : ℕ}
    (hlast : c.backend.now + milliseconds ≤ last) :
    Flight g key first last requests stored phase (c.move (.wait milliseconds)) :=
  ⟨h.programs, h.carries.elapse hlast, h.nodup, h.queued, h.fits⟩

/-- A step of a request changes its own phase only. -/
theorem step (h : Flight g key first last requests stored phase c)
    (hproper : ∀ r ∈ requests, r.Proper key first last) (i : ℕ) :
    i < requests.length ∧ (∃ p', Flight g key first last requests ((phase i).award i stored)
        (Function.update phase i p') (c.move (.step i)) ∧
      ∀ e, p' = .answered (.error e) →
        phase i = .answered (.error e) ∨ phase i = .computing (.done (.error e))) ∨
      c.move (.step i) = c := by
  rcases hr : requests[i]? with _ | r
  · right
    rw [Crew.move, h.programs, hr]
    rfl
  left
  have hi : i < requests.length := (List.getElem?_eq_some_iff.1 hr).1
  obtain ⟨p', b', hrun, hnext⟩ := Phase.exists_next g (hproper r (List.mem_of_getElem? hr))
    h.carries h.nodup (h.fits i hi)
  have hmove : c.move (.step i) = ⟨c.programs.set i (p'.program g key r), b'⟩ := by
    rw [Crew.move, h.programs, hr]
    simp only [Option.map_some, hrun]
  refine ⟨hi, p', ?_, hnext.failed⟩
  rw [hmove]
  refine ⟨fun j => ?_, hnext.carries, hnext.turned.nodup h.nodup, fun j hj => ?_, fun j hj => ?_⟩
  · by_cases hj : j = i
    · subst hj
      rw [List.getElem?_set_self', h.programs, hr, Function.update_self]
      rfl
    · rw [List.getElem?_set_ne (Ne.symm hj), h.programs, Function.update_of_ne hj]
  · by_cases hij : j = i
    · exact hij ▸ hi
    · exact h.queued j ((hnext.turned.mem_iff hij).1 hj)
  · by_cases hij : j = i
    · subst hij
      rw [Function.update_self]
      exact hnext.fits
    · rw [Function.update_of_ne hij]
      exact (h.fits j hj).of_ne hij (h.fits i hi) hnext.turned

end Flight

section Runs

variable (g : Gateway) (key : String) (requests : List (Request α))

/-- The request `i` is in its turn, and its computation has got to `q`. -/
def Midway (c : Crew (Except Fault α)) (i : ℕ) (q : Program (Except Fault α)) : Prop :=
  ∃ r, requests[i]? = some r ∧ c.programs[i]? = some (g.midway key r.ttl q)

/-- The computation of the request `i` is running, or its outcome is yet to be dealt with. -/
def Running (c : Crew (Except Fault α)) (i : ℕ) : Prop :=
  ∃ q, q.Avoids key ∧ Midway g key requests c i q

/-- The computation of the request `i` came to its outcome at some moment of the run. -/
def Finished (b : Backend) (moves : List Move) (i : ℕ) (outcome : Except Fault α) : Prop :=
  ∃ earlier, earlier <+: moves ∧
    Midway g key requests ((g.flight key requests b).run earlier) i (.done outcome)

/-- What a run of requests for one key has come to, when they compute in turn. -/
structure SingleFlight (b : Backend) (moves : List Move) : Prop where
  one_at_a_time : ∀ i j, Running g key requests ((g.flight key requests b).run moves) i →
    Running g key requests ((g.flight key requests b).run moves) j → i = j
  one_success : ∀ i j v w, Finished g key requests b moves i (.ok v) →
    Finished g key requests b moves j (.ok w) → i = j ∧ v = w
  values : ∀ i v, ((g.flight key requests b).run moves).answer? i = some (Except.ok v) →
    ∃ j, Finished g key requests b moves j (.ok v)
  faults : ∀ i e, ((g.flight key requests b).run moves).answer? i = some (Except.error e) →
    Finished g key requests b moves i (.error e)
  forgotten : (∀ i < requests.length, (((g.flight key requests b).run moves).answer? i).isSome) →
    ((g.flight key requests b).run moves).backend.inFlight.locks.lookup key = none

variable {g key requests} {b : Backend} {moves : List Move}

theorem Finished.mono {i : ℕ} {outcome : Except Fault α}
    (h : Finished g key requests b moves i outcome) (m : Move) :
    Finished g key requests b (moves ++ [m]) i outcome := by
  obtain ⟨earlier, hearlier, hmidway⟩ := h
  exact ⟨earlier, hearlier.trans (List.prefix_append _ _), hmidway⟩

theorem Finished.of_append {i : ℕ} {outcome : Except Fault α} {m : Move}
    (h : Finished g key requests b (moves ++ [m]) i outcome) :
    Finished g key requests b moves i outcome ∨
      Midway g key requests ((g.flight key requests b).run (moves ++ [m])) i (.done outcome) := by
  obtain ⟨earlier, hearlier, hmidway⟩ := h
  rcases List.prefix_concat_iff.1 hearlier with rfl | hearlier
  · exact .inr hmidway
  · exact .inl ⟨earlier, hearlier, hmidway⟩

section Invariant

variable {first last : ℕ} {stored : Option (ℕ × α)} {phase : ℕ → Phase α}
  {c : Crew (Except Fault α)}

theorem Flight.phase_of_midway (h : Flight g key first last requests stored phase c) {i : ℕ}
    {q : Program (Except Fault α)} (hq : q.Avoids key) (hmidway : Midway g key requests c i q) :
    ∃ q' r, requests[i]? = some r ∧ phase i = .computing q' ∧
      g.midway key r.ttl q' = g.midway key r.ttl q := by
  obtain ⟨r, hr, hp⟩ := hmidway
  rw [h.programs, hr, Option.map_some, Option.some.injEq] at hp
  obtain ⟨q', hq'⟩ := Phase.eq_computing hq hp
  rw [hq'] at hp
  exact ⟨q', r, hr, hq', hp⟩

theorem Flight.head?_of_running (h : Flight g key first last requests stored phase c) {i : ℕ}
    (hi : Running g key requests c i) :
    (c.backend.inFlight.queue key).head? = some i := by
  obtain ⟨q, hq, hmidway⟩ := hi
  obtain ⟨q', r, hr, hphase, -⟩ := h.phase_of_midway hq hmidway
  have hfits := h.fits i (List.getElem?_eq_some_iff.1 hr).1
  rw [hphase] at hfits
  exact hfits.1

theorem Flight.phase_of_done (h : Flight g key first last requests stored phase c) {i : ℕ}
    {outcome : Except Fault α} (hmidway : Midway g key requests c i (.done outcome)) :
    phase i = .computing (.done outcome) := by
  obtain ⟨q', r, hr, hphase, heq⟩ := h.phase_of_midway (q := .done outcome) trivial hmidway
  have hfits := h.fits i (List.getElem?_eq_some_iff.1 hr).1
  rw [hphase] at hfits
  rw [hphase, Phase.eq_done_of_midway hfits.2.2.1 heq]

theorem Flight.midway (h : Flight g key first last requests stored phase c) {i : ℕ}
    (hi : i < requests.length) {q : Program (Except Fault α)} (hphase : phase i = .computing q) :
    Midway g key requests c i q := by
  refine ⟨requests[i], List.getElem?_eq_getElem hi, ?_⟩
  rw [h.programs, List.getElem?_eq_getElem hi, hphase]
  rfl

theorem Flight.of_answer? (h : Flight g key first last requests stored phase c) {i : ℕ}
    {outcome : Except Fault α} (ha : c.answer? i = some outcome) :
    phase i = .answered outcome ∧ i < requests.length := by
  rw [Crew.answer?, h.programs] at ha
  rcases hr : requests[i]? with _ | r
  · rw [hr] at ha
    cases ha
  rw [hr, Option.map_some, Option.bind_some] at ha
  exact ⟨Phase.eq_answered (Program.eq_done_of_result? ha), (List.getElem?_eq_some_iff.1 hr).1⟩

/-- What is known after some moves of a flight. -/
structure Flown (g : Gateway) (key : String) (requests : List (Request α)) (b : Backend) (last : ℕ)
    (moves : List Move) (stored : Option (ℕ × α)) (phase : ℕ → Phase α) : Prop where
  flight : Flight g key b.now last requests stored phase ((g.flight key requests b).run moves)
  succeeded : ∀ j v, Finished g key requests b moves j (.ok v) →
    stored = some (j, v) ∨ stored = none ∧ phase j = .computing (.done (.ok v))
  computed : ∀ j v, stored = some (j, v) → Finished g key requests b moves j (.ok v)
  failed : ∀ j e, phase j = .answered (.error e) → Finished g key requests b moves j (.error e)

theorem Finished.lt_length {i : ℕ} {outcome : Except Fault α}
    (h : Finished g key requests b moves i outcome) : i < requests.length := by
  obtain ⟨_, -, r, hr, -⟩ := h
  exact (List.getElem?_eq_some_iff.1 hr).1

/-- A move that changes no program finishes no computation. -/
theorem Finished.of_unchanged {i : ℕ} {outcome : Except Fault α} {m : Move}
    (hm : ((g.flight key requests b).run (moves ++ [m])).programs
      = ((g.flight key requests b).run moves).programs)
    (h : Finished g key requests b (moves ++ [m]) i outcome) :
    Finished g key requests b moves i outcome := by
  rcases h.of_append with h | ⟨r, hr, hp⟩
  · exact h
  · exact ⟨moves, List.prefix_rfl, r, hr, hm ▸ hp⟩

namespace Flown

theorem of_unchanged (h : Flown g key requests b last moves stored phase) {m : Move}
    (hm : ((g.flight key requests b).run (moves ++ [m])).programs
      = ((g.flight key requests b).run moves).programs)
    (hflight : Flight g key b.now last requests stored phase
      ((g.flight key requests b).run (moves ++ [m]))) :
    Flown g key requests b last (moves ++ [m]) stored phase where
  flight := hflight
  succeeded j v hj := h.succeeded j v (hj.of_unchanged hm)
  computed j v hj := (h.computed j v hj).mono m
  failed j e hj := (h.failed j e hj).mono m

/-- A step keeps what is known: what it stores was computed by the request that takes it. -/
theorem step (h : Flown g key requests b last moves stored phase) {i : ℕ} {p' : Phase α}
    (hi : i < requests.length)
    (hflight : Flight g key b.now last requests ((phase i).award i stored)
      (Function.update phase i p') ((g.flight key requests b).run (moves ++ [.step i])))
    (hfailed : ∀ e, p' = .answered (.error e) →
      phase i = .answered (.error e) ∨ phase i = .computing (.done (.error e))) :
    Flown g key requests b last (moves ++ [.step i]) ((phase i).award i stored)
      (Function.update phase i p') := by
  have hnow : ∀ {outcome}, phase i = .computing (.done outcome) →
      Finished g key requests b (moves ++ [.step i]) i outcome := fun hphase =>
    ⟨moves, List.prefix_append _ _, h.flight.midway hi hphase⟩
  refine ⟨hflight, fun j v hj => ?_, fun j v hj => ?_, fun j e hj => ?_⟩
  · rcases hj.of_append with hj | hj
    · rcases h.succeeded j v hj with hstored | ⟨hnone, hphase⟩
      · rcases Phase.award_eq (h.flight.fits i hi) with haward | ⟨_, -, -, hnone, -⟩
        · exact .inl (haward.trans hstored)
        · rw [hnone] at hstored
          cases hstored
      · by_cases hji : j = i
        · subst hji
          rw [hphase]
          exact .inl rfl
        · rcases Phase.award_eq (h.flight.fits i hi) with haward | ⟨_, -, -, -, hhead⟩
          · rw [Function.update_of_ne hji]
            exact .inr ⟨haward.trans hnone, hphase⟩
          · have hfits := h.flight.fits j hj.lt_length
            rw [hphase] at hfits
            exact absurd (Option.some.inj (hfits.1.symm.trans hhead)) hji
    · have hphase := hflight.phase_of_done hj
      have hfits := hflight.fits j (hj.elim fun r hr => (List.getElem?_eq_some_iff.1 hr.1).1)
      rw [hphase] at hfits ⊢
      exact .inr ⟨hfits.2.1, rfl⟩
  · rcases Phase.award_eq (h.flight.fits i hi) with haward | ⟨w, hphase, haward, -, -⟩
    · exact (h.computed j v (haward ▸ hj)).mono _
    · rw [haward] at hj
      obtain ⟨rfl, rfl⟩ := Prod.mk.inj (Option.some.inj hj)
      exact hnow hphase
  · by_cases hji : j = i
    · subst hji
      rw [Function.update_self] at hj
      rcases hfailed e hj with hphase | hphase
      · exact (h.failed j e hphase).mono _
      · exact hnow hphase
    · rw [Function.update_of_ne hji] at hj
      exact (h.failed j e hj).mono _

end Flown

/-- Every run of a flight that is short enough keeps its requests in phases that fit. -/
theorem exists_flown (hg : g.strategy = .singleFlight) (hlookups : b.lookups = .healthy)
    (hwrites : b.writes = .healthy) (hflight : b.inFlight = .empty)
    (hcold : b.cache.Cold b.now key) (hproper : ∀ r ∈ requests, r.Proper key b.now last)
    (moves : List Move) (hlast : b.now + Move.elapsed moves ≤ last) :
    ∃ stored phase, Flown g key requests b last moves stored phase := by
  induction moves using List.reverseRecOn with
  | nil =>
    have hstart : Flight g key b.now last requests none (fun _ => .arriving)
        (g.flight key requests b) :=
      Flight.start hg hlookups hwrites hflight hcold (Nat.le_trans (Nat.le_add_right _ _) hlast)
    refine ⟨none, _, hstart, fun j v hj => ?_, nofun, fun j e hj => by cases hj⟩
    obtain ⟨earlier, hearlier, hmidway⟩ := hj
    rw [List.prefix_nil.1 hearlier] at hmidway
    cases hstart.phase_of_done hmidway
  | append_singleton moves m ih =>
    rw [Move.elapsed_append, ← Nat.add_assoc] at hlast
    obtain ⟨stored, phase, h⟩ := ih (Nat.le_trans (Nat.le_add_right _ _) hlast)
    have hrun : (g.flight key requests b).run (moves ++ [m])
        = ((g.flight key requests b).run moves).move m := Crew.run_append _ _ _
    cases m with
    | wait milliseconds =>
      refine ⟨stored, phase, h.of_unchanged (by rw [hrun]; rfl) ?_⟩
      rw [hrun]
      refine h.flight.wait ?_
      rw [Crew.now_run]
      exact hlast
    | step i =>
      rcases h.flight.step hproper i with ⟨hi, p', hflight', hfailed⟩ | hsame
      · exact ⟨_, _, h.step hi (hrun ▸ hflight') hfailed⟩
      · rw [← hrun] at hsame
        exact ⟨stored, phase, h.of_unchanged (congrArg Crew.programs hsame) (hsame ▸ h.flight)⟩

end Invariant

/-- Requests for a cold key over a working backend compute one at a time and once with success; all
that succeed answer with that one value, those that fail with the fault of their own computation,
and once all have answered the key has no lock. -/
theorem single_flight (hg : g.strategy = .singleFlight) (hlookups : b.lookups = .healthy)
    (hwrites : b.writes = .healthy) (hflight : b.inFlight = .empty)
    (hcold : b.cache.Cold b.now key)
    (hproper : ∀ r ∈ requests, r.Proper key b.now (b.now + Move.elapsed moves)) :
    SingleFlight g key requests b moves := by
  obtain ⟨stored, phase, h⟩ := exists_flown hg hlookups hwrites hflight hcold hproper moves
    (Nat.le_refl _)
  refine ⟨fun i j hi hj => ?_, fun i j v w hi hj => ?_, fun i v hi => ?_, fun i e hi => ?_,
    fun hall => ?_⟩
  · exact Option.some.inj
      ((h.flight.head?_of_running hi).symm.trans (h.flight.head?_of_running hj))
  · rcases h.succeeded i v hi with hs | ⟨hnone, hpi⟩
    · rcases h.succeeded j w hj with hs' | ⟨hnone, -⟩
      · exact Prod.mk.inj (Option.some.inj (hs.symm.trans hs'))
      · rw [hnone] at hs
        cases hs
    · rcases h.succeeded j w hj with hs' | ⟨-, hpj⟩
      · rw [hnone] at hs'
        cases hs'
      · have hfi := h.flight.fits i hi.lt_length
        have hfj := h.flight.fits j hj.lt_length
        rw [hpi] at hfi
        rw [hpj] at hfj
        obtain rfl := Option.some.inj (hfi.1.symm.trans hfj.1)
        cases hpi.symm.trans hpj
        exact ⟨rfl, rfl⟩
  · obtain ⟨hphase, hlt⟩ := h.flight.of_answer? hi
    have hfits := h.flight.fits i hlt
    rw [hphase] at hfits
    obtain ⟨⟨j, w⟩, hs, rfl⟩ := Option.map_eq_some_iff.1 (hfits.2 v rfl)
    exact ⟨j, h.computed j w hs⟩
  · exact h.failed i e (h.flight.of_answer? hi).1
  · rw [InFlight.lookup_eq_none_iff h.flight.carries.inFlight, List.eq_nil_iff_forall_not_mem]
    intro i hi
    have hlt := h.flight.queued i hi
    obtain ⟨outcome, hanswer⟩ := Option.isSome_iff_exists.1 (hall i hlt)
    have hfits := h.flight.fits i hlt
    rw [(h.flight.of_answer? hanswer).1] at hfits
    exact hfits.1 hi

end Runs

namespace Gateway

/-- The first request fails, and the last one would keep its value for ever. -/
def sampleRequests : List (Request String) :=
  [⟨some 1, Analysis.compute (.error (.cache "no rows"))⟩, ⟨some 1, Analysis.compute (.ok "a")⟩,
    ⟨none, Analysis.compute (.ok "b")⟩]

def sampleGateway : Gateway := ⟨.singleFlight, some 1800, 2000⟩

/-- The requests take steps one after another, and time passes. -/
def sampleMoves : List Move :=
  (List.replicate 12 [.step 0, .step 1, .step 2, .wait 80]).flatten

theorem sampleRequests_proper :
    ∀ r ∈ sampleRequests, r.Proper "k" 0 (Move.elapsed sampleMoves) := by
  intro r hr
  simp only [sampleRequests, List.mem_cons, List.not_mem_nil, or_false] at hr
  rcases hr with rfl | rfl | rfl
  · exact ⟨trivial, nofun, by decide⟩
  · exact ⟨trivial, fun v hv => by cases hv; decide +kernel, by decide⟩
  · exact ⟨trivial, fun v hv => by cases hv; decide +kernel, by decide⟩

end Gateway

open Gateway in
theorem single_flight_three :
    (∀ r ∈ sampleRequests, r.Proper "k" 0 (Move.elapsed sampleMoves)) ∧
      ((sampleGateway.flight "k" sampleRequests (.fresh (.prepared []))).run sampleMoves).answer? 2
        = some (.ok "a") ∧
      SingleFlight sampleGateway "k" sampleRequests (.fresh (.prepared [])) sampleMoves :=
  ⟨sampleRequests_proper, by decide +kernel,
    single_flight rfl rfl rfl rfl (fun _ he => absurd he List.not_mem_nil) (by
      intro r hr
      simpa only [Backend.fresh, Nat.zero_add] using sampleRequests_proper r hr)⟩

end Bourse
