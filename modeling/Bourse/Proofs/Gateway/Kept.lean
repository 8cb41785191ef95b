import Bourse.Proofs.Gateway.Conditions
import Bourse.Proofs.Json.Payload

/-!
# Kept values

A value kept under a key is given as if it had just been computed, under any conditions, when the
key truly holds the outcome of the computation (`Gives.getOrComputeFor`). Where the key is cold
nothing is read back, so the outcome is that of the computation whatever the key truly holds
(`allows_getOrComputeFor`).
-/

namespace Bourse

variable {α : Type}

/-- What a gateway makes of the reply to a lookup. -/
def Gateway.reading [Payload α] (g : Gateway) (reply : Reply (Option String)) :
    Except Fault (Option α) :=
  (reply.within "cache get" g.timeout).map (·.bind Payload.read)

namespace Analysis

/-- A turn at a key is the work itself between taking the lock and giving it back. -/
theorem run_turn {σ : Type} (services : Services σ) (work : Analysis α) (key : String) (s : σ) :
    (do enter key
        let outcome ← attempt work
        leave key
        outcome : Analysis α).run.run services s
      = let r := work.run.run services (services.enter key s)
        (r.1, services.leave key r.2) := by
  rw [run_bind]
  change (attempt work >>= _).run.run services _ = _
  rw [run_bind, run_attempt]
  rfl

/-- What is read from a written value is the same for our purposes, and values that are the same
are written alike. -/
structure Kept [Payload α] (same : α → α → Prop) : Prop where
  reads : ∀ {a b : α}, Payload.read (Payload.write a) = some b → same b a
  alike : ∀ {a b : α}, same a b → Payload.encode a = Payload.encode b

theorem kept_eq [Payload α] [Payload.Exact α] : Kept (Eq : α → α → Prop) where
  reads {a b} h := by
    rw [Payload.read_write_self] at h
    exact (Option.some.inj h).symm
  alike h := congrArg _ h

theorem kept_encode [Payload α] [Payload.Faithful α] :
    Kept fun a b : α => Payload.encode a = Payload.encode b where
  reads {a b} h := by
    obtain ⟨c, hc, he⟩ := Payload.read_write a
    rw [hc] at h
    obtain rfl := Option.some.inj h
    exact he
  alike h := h

variable [Payload α]

section Runs

variable {σ : Type} (services : Services σ) (g : Gateway) (key : String) (s : σ)

theorem run_get_eq : (g.get key : Analysis (Option α)).run.run services s
    = (((services.lookup key s).1.within "cache get" g.timeout).map (·.bind Payload.read),
        (services.lookup key s).2) := by
  have hrun : (lookup key).run.run services s
      = (.ok (services.lookup key s).1, (services.lookup key s).2) := rfl
  rw [Gateway.get, run_bind, hrun]
  rcases services.lookup key s with ⟨_ | _ | _, _⟩ <;> rfl

theorem run_set_eq (v : α) (ttl : Option ℕ) : (g.set key v ttl).run.run services s
    = ((services.store key (Payload.write v) ttl s).1.within "cache set" g.timeout,
        (services.store key (Payload.write v) ttl s).2) := by
  have hrun : (store key (Payload.write v) ttl).run.run services s
      = (.ok (services.store key (Payload.write v) ttl s).1,
          (services.store key (Payload.write v) ttl s).2) := rfl
  rw [Gateway.set, run_bind, hrun]
  rcases services.store key (Payload.write v) ttl s with ⟨_ | _ | _, _⟩ <;> rfl

/-- A request ends with the lookup of its key unless that finds nothing to read. -/
theorem run_missed (rest : Analysis α) :
    (do match ← g.get key with
        | some hit => return hit
        | none => rest : Analysis α).run.run services s
      = match g.reading (services.lookup key s).1 with
        | .ok (some hit) => (.ok hit, (services.lookup key s).2)
        | .ok none => rest.run.run services (services.lookup key s).2
        | .error e => (.error e, (services.lookup key s).2) := by
  rw [run_bind, run_get_eq, Gateway.reading]
  generalize ((services.lookup key s).1.within "cache get" g.timeout).map _ = reading
  rcases reading with _ | _ | _ <;> rfl

variable (ttl : Option ℕ) (computation : Analysis α)

theorem run_fetch_eq : (g.fetch key ttl computation).run.run services s
    = match g.reading (services.lookup key s).1 with
      | .ok (some hit) => (.ok hit, (services.lookup key s).2)
      | .ok none =>
        (g.computeAndStore key ttl computation).run.run services (services.lookup key s).2
      | .error e => (.error e, (services.lookup key s).2) :=
  run_missed services g key s (g.computeAndStore key ttl computation)

theorem run_fetchInTurn_eq : (g.fetchInTurn key ttl computation).run.run services s
    = match g.reading (services.lookup key s).1 with
      | .ok (some hit) => (.ok hit, (services.lookup key s).2)
      | .ok none =>
        let r := (g.fetch key ttl computation).run.run services
          (services.enter key (services.lookup key s).2)
        (r.1, services.leave key r.2)
      | .error e => (.error e, (services.lookup key s).2) := by
  rw [← run_turn services (g.fetch key ttl computation) key]
  exact run_missed services g key s _

variable {services g key s}

/-- A turn at a key that holds nothing to read is the computation, whose value is then stored. -/
theorem run_fetchInTurn_missed
    (hfirst : g.reading (services.lookup key s).1 = .ok (none : Option α))
    (hagain : g.reading (services.lookup key (services.enter key (services.lookup key s).2)).1
      = .ok (none : Option α)) :
    (g.fetchInTurn key ttl computation).run.run services s
      = match computation.run.run services
          (services.lookup key (services.enter key (services.lookup key s).2)).2 with
        | (.ok v, s') =>
          let r := services.store key (Payload.write v) ttl s'
          ((r.1.within "cache set" g.timeout).map fun _ => v, services.leave key r.2)
        | (.error e, s') => (.error e, services.leave key s') := by
  rw [run_fetchInTurn_eq, hfirst]
  dsimp only
  rw [run_fetch_eq, hagain]
  dsimp only
  rw [Gateway.computeAndStore, run_bind]
  rcases computation.run.run services _ with ⟨_ | v, s'⟩
  · rfl
  · dsimp only
    rw [run_bind, run_set_eq]
    cases (services.store key (Payload.write v) ttl s').1.within "cache set" g.timeout <;> rfl

end Runs

variable {c : Conditions} {t : Tables} {truth : String → Json → Prop} {same : α → α → Prop}
  {computation : Analysis α} {x : Except Fault α} {key : String} {g : Gateway} {ttl : Option ℕ}
  {b : Backend}

/-- A lookup finds the true value of a key or none, and none where the key is cold. -/
theorem run_get (hb : b.Sound t truth) (g : Gateway) (key : String) :
    ∃ (r : Except Fault (Option α)) (b' : Backend),
      (g.get key).run.run (Backend.under c) b = (r, b') ∧ b'.Sound t truth ∧
        (b.cache.Cold b.now key → b'.cache.Cold b'.now key) ∧
        (∀ hit, r = .ok hit → (b.cache.Cold b.now key → hit = none) ∧
          ∀ v, hit = some v → ∃ j, truth key j ∧ Payload.read j.text = some v) ∧
        ∀ e, r = .error e → ¬c.Faultless := by
  rw [run_get_eq]
  refine ⟨_, _, rfl, ?_⟩
  have hlater : b.cache.Cold b.now key → b.cache.Cold (b.now + c.delay b) key :=
    fun h => h.later (Nat.le_add_right _ _)
  have hhealthy : (b.elapse (c.delay b)).lookups = .healthy := hb.lookups
  have hunserved : c.lookup (b.elapse (c.delay b)) key ≠ .served → ¬c.Faultless :=
    fun hluck hc => hluck (hc.lookup _ key)
  cases hluck : c.lookup (b.elapse (c.delay b)) key with
  | served =>
    simp only [Backend.under, hluck, Backend.lookup, hhealthy, CacheStore.get_fst]
    refine ⟨⟨rfl, hb.writes, hb.source, hb.kept.get _ _⟩, fun h => (hlater h).get _ _,
      fun hit hhit => ?_, fun e he => by cases he⟩
    cases hhit
    constructor
    · exact fun h => congrArg (Option.bind · Payload.read) (hlater h).find?
    · intro v hv
      obtain ⟨text, htext, hread⟩ := Option.bind_eq_some_iff.1 hv
      obtain ⟨j, hj, rfl⟩ := hb.kept.find? htext
      exact ⟨j, hj, hread⟩
  | refused fault =>
    rw [hluck] at hunserved
    simp only [Backend.under, hluck]
    exact ⟨⟨hb.lookups, hb.writes, hb.source, hb.kept⟩, hlater,
      (fun _ h => by cases h), fun _ _ => hunserved (by simp)⟩
  | stalled =>
    rw [hluck] at hunserved
    simp only [Backend.under, hluck]
    exact ⟨⟨hb.lookups, hb.writes, hb.source, hb.kept⟩, hlater,
      (fun _ h => by cases h), fun _ _ => hunserved (by simp)⟩

/-- A write of a true value leaves a sound backend sound, and so does one that fails. -/
theorem run_set (hb : b.Sound t truth) (g : Gateway) (key : String) (v : α) (ttl : Option ℕ) :
    ∃ (r : Except Fault Unit) (b' : Backend),
      (g.set key v ttl).run.run (Backend.under c) b = (r, b') ∧
        (truth key (Payload.encode v) → b'.Sound t truth) ∧
        ∀ e, r = .error e → b'.Sound t truth ∧ ¬c.Faultless := by
  rw [run_set_eq]
  refine ⟨_, _, rfl, ?_⟩
  have hhealthy : (b.elapse (c.delay b)).writes = .healthy := hb.writes
  have hunserved : c.write (b.elapse (c.delay b)) key ≠ .served → ¬c.Faultless :=
    fun hluck hc => hluck (hc.write _ key)
  cases hluck : c.write (b.elapse (c.delay b)) key with
  | served =>
    simp only [Backend.under, hluck, Backend.store, hhealthy]
    exact ⟨fun hv => ⟨hb.lookups, rfl, hb.source, hb.kept.set ⟨_, hv, rfl⟩ _ _⟩,
      fun e he => by cases he⟩
  | refused fault =>
    rw [hluck] at hunserved
    simp only [Backend.under, hluck]
    exact ⟨fun _ => ⟨hb.lookups, hb.writes, hb.source, hb.kept⟩, fun _ _ =>
      ⟨⟨hb.lookups, hb.writes, hb.source, hb.kept⟩, hunserved (by simp)⟩⟩
  | stalled =>
    rw [hluck] at hunserved
    simp only [Backend.under, hluck]
    exact ⟨fun _ => ⟨hb.lookups, hb.writes, hb.source, hb.kept⟩, fun _ _ =>
      ⟨⟨hb.lookups, hb.writes, hb.source, hb.kept⟩, hunserved (by simp)⟩⟩

variable (t truth key) in
/-- The backend is sound unless a value has been given that the key does not truly hold. -/
def LeavesSound (r : Except Fault α × Backend) : Prop :=
  (∀ v, r.1 = .ok v → truth key (Payload.encode v)) → r.2.Sound t truth

variable (hc : Gives c t truth same computation x)

include hc

theorem allows_computeAndStore (hb : b.Sound t truth) :
    c.Allows same ((g.computeAndStore key ttl computation).run.run (Backend.under c) b).1 x ∧
      LeavesSound t truth key
        ((g.computeAndStore key ttl computation).run.run (Backend.under c) b) := by
  obtain ⟨hallows, hsound⟩ := hc b hb
  rw [Gateway.computeAndStore, run_bind]
  generalize computation.run.run (Backend.under c) b = r at hallows hsound
  rcases r with ⟨got, b'⟩
  cases hallows with
  | failed e h => exact ⟨.failed e h, fun _ => hsound⟩
  | agreed h =>
    cases h with
    | error e => exact ⟨.agreed (.error e), fun _ => hsound⟩
    | @ok v w h =>
      dsimp only
      rw [run_bind]
      obtain ⟨r, b'', hrun, hset, hfailed⟩ := run_set (c := c) hsound g key v ttl
      rw [hrun]
      cases r with
      | ok _ => exact ⟨.agreed (.ok h), fun htruth => hset (htruth v rfl)⟩
      | error e => exact ⟨.failed e (hfailed e rfl).2, fun _ => (hfailed e rfl).1⟩

variable (hread : b.cache.Cold b.now key ∨
  ∀ v j, truth key j → Payload.read j.text = some v → Agrees same (.ok v) x)

include hread

omit hc in
theorem allows_missed {rest : Analysis α}
    (hrest : ∀ {b : Backend}, b.Sound t truth → (b.cache.Cold b.now key ∨
        ∀ v j, truth key j → Payload.read j.text = some v → Agrees same (.ok v) x) →
      c.Allows same (rest.run.run (Backend.under c) b).1 x ∧
        LeavesSound t truth key (rest.run.run (Backend.under c) b)) (hb : b.Sound t truth) :
    c.Allows same ((do match ← g.get key with
      | some hit => return hit
      | none => rest : Analysis α).run.run (Backend.under c) b).1 x ∧
      LeavesSound t truth key ((do match ← g.get key with
      | some hit => return hit
      | none => rest : Analysis α).run.run (Backend.under c) b) := by
  obtain ⟨r, b', hrun, hsound, hcold', hget, hfailed⟩ := run_get (α := α) (c := c) hb g key
  rw [run_bind, hrun]
  rcases r with e | _ | v
  · exact ⟨.failed e (hfailed e rfl), fun _ => hsound⟩
  · exact hrest hsound (hread.imp_left hcold')
  · refine ⟨.agreed ?_, fun _ => hsound⟩
    obtain ⟨hmissed, hfound⟩ := hget _ rfl
    obtain ⟨j, hj, hv⟩ := hfound v rfl
    rcases hread with hcold | hread
    · cases hmissed hcold
    · exact hread v j hj hv

theorem allows_fetch (hb : b.Sound t truth) :
    c.Allows same ((g.fetch key ttl computation).run.run (Backend.under c) b).1 x ∧
      LeavesSound t truth key ((g.fetch key ttl computation).run.run (Backend.under c) b) :=
  allows_missed hread (fun hb _ => allows_computeAndStore hc hb) hb

theorem allows_fetchInTurn (hb : b.Sound t truth) :
    c.Allows same ((g.fetchInTurn key ttl computation).run.run (Backend.under c) b).1 x ∧
      LeavesSound t truth key
        ((g.fetchInTurn key ttl computation).run.run (Backend.under c) b) := by
  refine allows_missed hread (fun {b} hb hread => ?_) hb
  have hentered : ((Backend.under c).enter key b).Sound t truth :=
    ⟨hb.lookups, hb.writes, hb.source, hb.kept⟩
  -- The clock moves while the turn is waited for, and what was cold stays so.
  have hread' : ((Backend.under c).enter key b).cache.Cold ((Backend.under c).enter key b).now
      key ∨ ∀ v j, truth key j → Payload.read j.text = some v → Agrees same (.ok v) x :=
    hread.imp_left fun h => h.later (Nat.le_add_right _ _)
  obtain ⟨hallows, hsound⟩ := allows_fetch hc hread' hentered
  rw [run_turn]
  refine ⟨hallows, fun htruth => ?_⟩
  have hleft := hsound htruth
  exact ⟨hleft.lookups, hleft.writes, hleft.source, hleft.kept⟩

/-- What is read back agrees with the outcome, or nothing is read back since the key is cold. -/
theorem allows_getOrComputeFor (hb : b.Sound t truth) :
    c.Allows same ((g.getOrComputeFor key ttl computation).run.run (Backend.under c) b).1 x ∧
      LeavesSound t truth key
        ((g.getOrComputeFor key ttl computation).run.run (Backend.under c) b) := by
  unfold Gateway.getOrComputeFor
  cases g.strategy with
  | aside => exact allows_fetch hc hread hb
  | singleFlight => exact allows_fetchInTurn hc hread hb

omit hread in
theorem Gives.getOrComputeFor (hk : Kept same)
    (hkey : ∀ j, truth key j ↔ ∃ v, x = .ok v ∧ Payload.encode v = j) :
    Gives c t truth same (g.getOrComputeFor key ttl computation) x := by
  intro b hb
  have hread : ∀ v j, truth key j → Payload.read j.text = some v → Agrees same (.ok v) x := by
    intro v j hj hv
    obtain ⟨w, rfl, rfl⟩ := (hkey j).1 hj
    exact .ok (hk.reads hv)
  obtain ⟨hallows, hsound⟩ := allows_getOrComputeFor hc (.inr hread) hb
  refine ⟨hallows, hsound fun v hv => ?_⟩
  rw [hv] at hallows
  cases hallows with
  | agreed h =>
    cases h with
    | ok h => exact (hkey _).2 ⟨_, rfl, (hk.alike h).symm⟩

end Analysis

end Bourse
