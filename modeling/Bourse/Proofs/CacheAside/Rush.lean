import Bourse.Proofs.CacheAside.Stages
import Bourse.Proofs.SingleFlight

/-!
# Rushes

Requests for one key that take no turns take their steps in some order (`Rush`). When each of them
looks the key up, computes and stores is read off the run move by move (`Rush.Looks`,
`Rush.Computing`, `Rush.Writes`). After any number of moves every request is in the stage that its
history says (`Rush.At`), which one move after another keeps (`Rush.At.exists_succ`).
-/

namespace Bourse

variable {α : Type} [Payload α]

deriving instance DecidableEq for Move

/-- Requests for a key, the backend that they find, and the order in which they take their steps. -/
structure Rush (α : Type) where
  gateway : Gateway
  key : String
  requests : List (Request α)
  start : Backend
  moves : List Move

namespace Rush

variable (r : Rush α)

/-- The requests and the backend after the first `n` moves. -/
def crew (n : ℕ) : Crew (Except Fault α) :=
  (r.gateway.flight r.key r.requests r.start).run (r.moves.take n)

/-- The requests and the backend after all moves. -/
def finish : Crew (Except Fault α) :=
  r.crew r.moves.length

/-- What is found under the key after `n` moves. -/
def entry (n : ℕ) : Option String :=
  (r.crew n).backend.cache.find? (r.crew n).backend.now r.key

/-- Move `n` is a step of the request `i`, of which `p` was left. -/
def Steps (n i : ℕ) (p : Program (Except Fault α)) : Prop :=
  r.moves[n]? = some (.step i) ∧ (r.crew n).programs[i]? = some p

/-- In move `n`, the request `i` looks the key up. -/
def Looks (n i : ℕ) : Prop :=
  ∃ p, r.Steps n i p ∧ p.LooksUp r.key

/-- In move `n`, the request `i` stores the text under the key. -/
def Writes (n i : ℕ) (text : String) : Prop :=
  ∃ p, r.Steps n i p ∧ p.Stores r.key text

/-- What is left after `n` moves of a program that takes the steps of the request `i` from the move
`since` on. -/
def left (i since : ℕ) (p : Program (Except Fault α)) : ℕ → Program (Except Fault α)
  | 0 => p
  | n + 1 =>
    if since ≤ n ∧ r.moves[n]? = some (.step i) then
      ((left i since p n).advance i (r.crew n).backend).1
    else left i since p n

/-- The request `i` has missed the key, and after `n` moves `p` is left of its own computation. -/
def Computing (n i : ℕ) (p : Program (Except Fault α)) : Prop :=
  ∃ k q, k < n ∧ r.requests[i]? = some q ∧ r.Looks k i ∧
    (r.entry k).bind (Payload.read (α := α)) = none ∧ r.left i (k + 1) q.computation.run n = p

variable {r} {n i k : ℕ} {p : Program (Except Fault α)}

theorem crew_succ {m : Move} (hm : r.moves[n]? = some m) : r.crew (n + 1) = (r.crew n).move m := by
  rw [crew, List.take_add_one, hm, Option.toList_some, Crew.run_append]
  rfl

theorem now_crew (r : Rush α) (n : ℕ) :
    (r.crew n).backend.now = r.start.now + Move.elapsed (r.moves.take n) :=
  Crew.now_run _ _

theorem now_crew_le (r : Rush α) (n : ℕ) :
    (r.crew n).backend.now ≤ r.start.now + Move.elapsed r.moves := by
  have hall := Move.elapsed_append (r.moves.take n) (r.moves.drop n)
  rw [List.take_append_drop] at hall
  rw [now_crew]
  omega

theorem now_crew_step (hm : r.moves[n]? = some (.step i)) :
    (r.crew (n + 1)).backend.now = (r.crew n).backend.now := by
  rw [now_crew, now_crew, List.take_add_one, hm, Option.toList_some, Move.elapsed_append]
  rfl

theorem left_self {since : ℕ} : ∀ {n : ℕ}, n ≤ since → r.left i since p n = p
  | 0, _ => rfl
  | n + 1, h => by
    rw [left, if_neg (by omega)]
    exact left_self (by omega)

namespace Computing

theorem of_looks {q : Request α} (hq : r.requests[i]? = some q) (hlooks : r.Looks n i)
    (hmiss : (r.entry n).bind (Payload.read (α := α)) = none) :
    r.Computing (n + 1) i q.computation.run :=
  ⟨n, q, Nat.lt_succ_self n, hq, hlooks, hmiss, left_self (Nat.le_refl _)⟩

theorem succ (h : r.Computing n i p) (hm : r.moves[n]? = some (.step i)) :
    r.Computing (n + 1) i (p.advance i (r.crew n).backend).1 := by
  obtain ⟨k, q, hk, hq, hlooks, hmiss, rfl⟩ := h
  exact ⟨k, q, by omega, hq, hlooks, hmiss, if_pos ⟨hk, hm⟩⟩

theorem succ_of_ne (h : r.Computing n i p) (hm : r.moves[n]? ≠ some (.step i)) :
    r.Computing (n + 1) i p := by
  obtain ⟨k, q, hk, hq, hlooks, hmiss, rfl⟩ := h
  exact ⟨k, q, by omega, hq, hlooks, hmiss, if_neg fun hboth => hm hboth.2⟩

/-- A computation that has come to an outcome stays so. -/
theorem mono {outcome : Except Fault α} (h : r.Computing n i (.done outcome)) {n' : ℕ}
    (hle : n ≤ n') : r.Computing n' i (.done outcome) := by
  induction hle with
  | refl => exact h
  | @step n' hle ih =>
    by_cases hm : r.moves[n']? = some (.step i)
    · exact ih.succ hm
    · exact ih.succ_of_ne hm

end Computing

/-- Requests under the strategy that takes no turns, over a working backend, whose values are read
back as themselves and outlast the moves. -/
structure Apt (r : Rush α) : Prop where
  strategy : r.gateway.strategy = .aside
  lookups : r.start.lookups = .healthy
  writes : r.start.writes = .healthy
  keyed : r.start.cache.Keyed
  proper : ∀ q ∈ r.requests, q.Proper r.key r.start.now (r.start.now + Move.elapsed r.moves)

/-- What has happened in the first `n` moves to a request in a stage. -/
def Reached (r : Rush α) (n i : ℕ) : Stage α → Prop
  | .arriving => ∀ k < n, ¬r.Looks k i
  | .computing p => r.Computing n i p
  | .answered v =>
    (∃ k < n, r.Looks k i ∧ (r.entry k).bind Payload.read = some v) ∨
      r.Computing n i (.done (.ok v)) ∧ ∃ m < n, r.Writes m i (Payload.write v)

theorem Reached.succ_of_ne {s : Stage α} (h : r.Reached n i s)
    (hm : r.moves[n]? ≠ some (.step i)) : r.Reached (n + 1) i s := by
  rcases s with _ | p | v
  · rintro k hk ⟨p, hsteps, hlooks⟩
    rcases Nat.lt_succ_iff_lt_or_eq.1 hk with hk | rfl
    · exact h k hk ⟨p, hsteps, hlooks⟩
    · exact hm hsteps.1
  · exact Computing.succ_of_ne h hm
  · rcases h with ⟨k, hk, hfound⟩ | ⟨hcomputed, m, hlt, hwrites⟩
    · exact .inl ⟨k, by omega, hfound⟩
    · exact .inr ⟨hcomputed.succ_of_ne hm, m, by omega, hwrites⟩

/-- After `n` moves every request is in its stage, and `found` says what is found from then on. -/
structure At (r : Rush α) (n : ℕ) (stage : ℕ → Stage α) (found : ℕ → Option String) : Prop where
  programs : ∀ i, (r.crew n).programs[i]?
    = r.requests[i]?.map fun q => (stage i).program r.gateway r.key q
  serves : (r.crew n).backend.Serves r.key r.start.now (r.start.now + Move.elapsed r.moves) found
  sound : ∀ i < r.requests.length, (stage i).Sound r.key
  reached : ∀ i < r.requests.length, r.Reached n i (stage i)

namespace At

variable {stage : ℕ → Stage α} {found : ℕ → Option String}

theorem start (h : r.Apt) :
    r.At 0 (fun _ => .arriving) fun instant => r.start.cache.find? instant r.key where
  programs i := by
    rw [crew, Gateway.flight, List.take_zero, Crew.run, List.foldl_nil, List.getElem?_map]
    simp only [Gateway.getOrComputeFor, h.strategy, Stage.program]
  serves := ⟨h.lookups, h.writes, Nat.le_refl _, Nat.le_add_right _ _, h.keyed, fun _ _ _ => rfl⟩
  sound _ _ := trivial
  reached _ _ k hk := absurd hk (Nat.not_lt_zero k)

theorem entry_eq (h : r.At n stage found) : r.entry n = found (r.crew n).backend.now :=
  h.serves.find?

theorem steps_iff (h : r.At n stage found) :
    r.Steps n i p ↔ r.moves[n]? = some (.step i) ∧
      ∃ q, r.requests[i]? = some q ∧ (stage i).program r.gateway r.key q = p := by
  rw [Steps, h.programs, Option.map_eq_some_iff]

/-- What the next step of a request is can be told by its stage. -/
theorem exists_steps_iff (h : r.At n stage found) {P : Program (Except Fault α) → Prop} {Q : Prop}
    (hiff : ∀ q, i < r.requests.length → (P ((stage i).program r.gateway r.key q) ↔ Q)) :
    (∃ p, r.Steps n i p ∧ P p) ↔
      r.moves[n]? = some (.step i) ∧ i < r.requests.length ∧ Q := by
  constructor
  · rintro ⟨p, hsteps, hp⟩
    obtain ⟨hm, q, hq, rfl⟩ := h.steps_iff.1 hsteps
    have hi := (List.getElem?_eq_some_iff.1 hq).1
    exact ⟨hm, hi, (hiff q hi).1 hp⟩
  · rintro ⟨hm, hi, hstage⟩
    exact ⟨_, h.steps_iff.2 ⟨hm, _, List.getElem?_eq_getElem hi, rfl⟩, (hiff _ hi).2 hstage⟩

theorem looks_iff (h : r.At n stage found) :
    r.Looks n i ↔ r.moves[n]? = some (.step i) ∧ i < r.requests.length ∧ stage i = .arriving :=
  h.exists_steps_iff fun _ hi => Stage.looksUp_program _ (h.sound i hi)

theorem writes_iff (h : r.At n stage found) {text : String} :
    r.Writes n i text ↔ r.moves[n]? = some (.step i) ∧ i < r.requests.length ∧
      ∃ v, stage i = .computing (.done (.ok v)) ∧ Payload.write v = text :=
  h.exists_steps_iff fun _ hi => Stage.stores_program _ (h.sound i hi)

/-- What a step makes of the history of the request that takes it. -/
theorem reached_next (h : r.At n stage found) (hm : r.moves[n]? = some (.step i)) {q : Request α}
    (hq : r.requests[i]? = some q) :
    r.Reached (n + 1) i ((stage i).next r.key q i (r.crew n).backend) := by
  have hi := (List.getElem?_eq_some_iff.1 hq).1
  have hreached := h.reached i hi
  rcases hstage : stage i with _ | p | v <;> rw [hstage] at hreached
  · have hlooks : r.Looks n i := h.looks_iff.2 ⟨hm, hi, hstage⟩
    rw [Stage.next]
    split
    · next hit hfound => exact .inl ⟨n, Nat.lt_succ_self n, hlooks, hfound⟩
    · next hmiss => exact Computing.of_looks hq hlooks hmiss
  · by_cases hp : ∃ v, p = .done (.ok v)
    · obtain ⟨v, rfl⟩ := hp
      have hwrites : r.Writes n i (Payload.write v) := h.writes_iff.2 ⟨hm, hi, v, hstage, rfl⟩
      exact .inr ⟨Computing.succ hreached hm, n, Nat.lt_succ_self n, hwrites⟩
    · rw [Stage.next_computing i (not_exists.1 hp)]
      exact Computing.succ hreached hm
  · rcases hreached with ⟨k, hk, hfound⟩ | ⟨hcomputed, m, hlt, hwrites⟩
    · exact .inl ⟨k, by omega, hfound⟩
    · exact .inr ⟨hcomputed.mono (Nat.le_succ n), m, by omega, hwrites⟩

/-- A step of one request leaves the others in their stages. -/
theorem step (h : r.At n stage found) (hr : r.Apt) (hm : r.moves[n]? = some (.step i))
    {q : Request α} (hq : r.requests[i]? = some q) :
    r.At (n + 1) (Function.update stage i ((stage i).next r.key q i (r.crew n).backend))
      ((stage i).deposit found) := by
  have hi := (List.getElem?_eq_some_iff.1 hq).1
  have hproper := hr.proper q (List.mem_of_getElem? hq)
  obtain ⟨b', hrun, hserves⟩ :=
    Stage.advance_program r.gateway i hproper h.serves (h.sound i hi)
  have hcrew : r.crew (n + 1) = ⟨(r.crew n).programs.set i
      (((stage i).next r.key q i (r.crew n).backend).program r.gateway r.key q), b'⟩ := by
    rw [crew_succ hm, Crew.move, h.programs, hq]
    simp only [Option.map_some, hrun]
  refine ⟨fun j => ?_, ?_, fun j hj => ?_, fun j hj => ?_⟩
  · rw [hcrew]
    by_cases hij : i = j
    · subst hij
      rw [List.getElem?_set_self', h.programs, hq, Function.update_self]
      rfl
    · rw [List.getElem?_set_ne hij, h.programs, Function.update_of_ne (Ne.symm hij)]
  · rw [hcrew]
    exact hserves
  · by_cases hij : j = i
    · subst hij
      rw [Function.update_self]
      exact (h.sound j hj).next j hproper
    · rw [Function.update_of_ne hij]
      exact h.sound j hj
  · by_cases hij : j = i
    · subst hij
      rw [Function.update_self]
      exact h.reached_next hm hq
    · rw [Function.update_of_ne hij]
      refine (h.reached j hj).succ_of_ne fun hmj => ?_
      rw [hm] at hmj
      cases hmj
      exact hij rfl

/-- A step of a request changes what is found by what it writes. -/
theorem deposit_eq (h : r.At n stage found) (hm : r.moves[n]? = some (.step i))
    (hi : i < r.requests.length) :
    (∃ j text, r.Writes n j text ∧ (stage i).deposit found = fun _ => some text) ∨
      (∀ j text, ¬r.Writes n j text) ∧ (stage i).deposit found = found := by
  by_cases hp : ∃ v, stage i = .computing (.done (.ok v))
  · obtain ⟨v, hv⟩ := hp
    exact .inl ⟨i, _, h.writes_iff.2 ⟨hm, hi, v, hv, rfl⟩, by rw [hv]; rfl⟩
  · refine .inr ⟨fun j text hwrites => ?_, ?_⟩
    · obtain ⟨hmj, -, v, hv, -⟩ := h.writes_iff.1 hwrites
      rw [hm] at hmj
      cases hmj
      exact hp ⟨v, hv⟩
    · rcases hstage : stage i with _ | p | v
      · rfl
      · refine Stage.deposit_computing fun v hv => hp ⟨v, ?_⟩
        rw [hstage, hv]
      · rfl

/-- A move that is a step of no request changes no stage, and is no write. -/
theorem idle (h : r.At n stage found)
    (hprograms : (r.crew (n + 1)).programs = (r.crew n).programs)
    (hserves : (r.crew (n + 1)).backend.Serves r.key r.start.now
      (r.start.now + Move.elapsed r.moves) found)
    (hm : ∀ i < r.requests.length, r.moves[n]? ≠ some (.step i)) :
    r.At (n + 1) stage found ∧ ∀ i text, ¬r.Writes n i text := by
  refine ⟨⟨fun i => by rw [hprograms, h.programs], hserves, h.sound,
    fun i hi => (h.reached i hi).succ_of_ne (hm i hi)⟩, fun i text hwrites => ?_⟩
  obtain ⟨hmi, hi, -⟩ := h.writes_iff.1 hwrites
  exact hm i hi hmi

theorem wait (h : r.At n stage found) {milliseconds : ℕ}
    (hm : r.moves[n]? = some (.wait milliseconds)) :
    r.At (n + 1) stage found ∧ ∀ i text, ¬r.Writes n i text := by
  have hlast := r.now_crew_le (n + 1)
  have hcrew := crew_succ hm
  refine h.idle (by rw [hcrew]; rfl) ?_ fun i _ hmi => ?_
  · rw [hcrew] at hlast ⊢
    exact h.serves.elapse hlast
  · rw [hm] at hmi
    cases hmi

theorem absent (h : r.At n stage found) (hm : r.moves[n]? = some (.step i))
    (hi : r.requests[i]? = none) :
    r.At (n + 1) stage found ∧ ∀ i text, ¬r.Writes n i text := by
  have hcrew : r.crew (n + 1) = r.crew n := by
    rw [crew_succ hm, Crew.move, h.programs, hi]
    rfl
  refine h.idle (by rw [hcrew]) (hcrew ▸ h.serves) fun j hj hmj => ?_
  rw [hm] at hmj
  cases hmj
  rw [List.getElem?_eq_getElem hj] at hi
  cases hi

/-- After a move every request is in some stage again, and only a write changes what is found. -/
theorem exists_succ (h : r.At n stage found) (hr : r.Apt) {m : Move} (hm : r.moves[n]? = some m) :
    ∃ stage' found', r.At (n + 1) stage' found' ∧
      ((∃ i text, r.Writes n i text ∧ found' = fun _ => some text) ∨
        (∀ i text, ¬r.Writes n i text) ∧ found' = found) := by
  rcases m with i | milliseconds
  · rcases hq : r.requests[i]? with _ | q
    · obtain ⟨hat, hnone⟩ := h.absent hm hq
      exact ⟨_, _, hat, .inr ⟨hnone, rfl⟩⟩
    · exact ⟨_, _, h.step hr hm hq, h.deposit_eq hm (List.getElem?_eq_some_iff.1 hq).1⟩
  · obtain ⟨hat, hnone⟩ := h.wait hm
    exact ⟨_, _, hat, .inr ⟨hnone, rfl⟩⟩

end At

end Rush

end Bourse
