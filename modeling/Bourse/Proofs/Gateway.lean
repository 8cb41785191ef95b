import Bourse.Proofs.Gateway.Kept

/-!
# Analyses and the cache

Over a sound backend whose clock moves as it likes, a transparent analysis gives its plain outcome
and leaves the backend sound. That is to be steady while nothing fails and rows come in order
(`transparent_iff`), and values kept under true keys are. Where a key is cold nothing is read back,
and what is computed alone is not stored when it fails (`run_asked`). Steps about keys of their own
leave each other's keys cold (`Analysis.run_mapM_cold`).
-/

namespace Bourse

variable {α β : Type}

variable (t : Tables) (truth : String → Json → Prop)

/-- Over a sound backend the analysis gives its plain outcome, and leaves the backend sound. -/
def Analysis.Transparent (same : α → α → Prop) (a : Analysis α) : Prop :=
  ∀ (delay : Backend → ℕ) (b : Backend), b.Sound t truth →
    Agrees same (a.run.run (Backend.timed delay) b).1 (a.plain t) ∧
      (a.run.run (Backend.timed delay) b).2.Sound t truth

namespace Analysis

variable {t truth} {same : α → α → Prop}

theorem transparent_iff {a : Analysis α} :
    Transparent t truth same a ↔ ∀ delay, Steady (.calm delay) t truth same a := by
  refine forall_congr' fun delay => ?_
  rw [Steady, Gives, Backend.under_calm]
  refine forall₂_congr fun b _ => and_congr_left fun _ => ⟨.agreed, fun h => ?_⟩
  exact h.agrees (Conditions.faultless_calm delay)

theorem transparent_pure (a : α) : Transparent t truth Eq (pure a) :=
  transparent_iff.2 fun _ => steady_pure a

theorem Transparent.bind {same : β → β → Prop} {a : Analysis α} {f : α → Analysis β}
    (ha : Transparent t truth Eq a) (hf : ∀ x, Transparent t truth same (f x)) :
    Transparent t truth same (a >>= f) :=
  transparent_iff.2 fun delay =>
    (transparent_iff.1 ha delay).bind fun x _ => transparent_iff.1 (hf x) delay

/-- A value whose key is cold is the one that has just been computed, not read back from a text. -/
theorem run_getOrComputeFor [Payload α] {computation : Analysis α} {key : String} {g : Gateway}
    {ttl : Option ℕ} {b : Backend} (delay : Backend → ℕ)
    (hc : Transparent t truth Eq computation) (hb : b.Sound t truth)
    (hcold : b.cache.Cold b.now key) :
    ((g.getOrComputeFor key ttl computation).run.run (Backend.timed delay) b).1
      = plain t computation := by
  have hgives : Gives (.calm delay) t truth Eq computation (plain t computation) :=
    transparent_iff.1 hc delay
  rw [← Backend.under_calm]
  exact agrees_eq ((allows_getOrComputeFor hgives (.inl hcold) hb).1.agrees
    (Conditions.faultless_calm delay))

end Analysis

/-- A working backend over some tables where the key is cold. -/
structure Backend.ColdAt (t : Tables) (key : String) (b : Backend) : Prop where
  lookups : b.lookups = .healthy
  writes : b.writes = .healthy
  source : b.source = .tables t
  cold : b.cache.Cold b.now key

/-- Nothing is in the later backend's cache that was not in the earlier one's, and nothing was
written to it. -/
structure Backend.Unstored (b later : Backend) : Prop where
  entries : ∀ e ∈ later.cache.entries, e ∈ b.cache.entries
  writes : later.cache.writes = b.cache.writes

theorem Backend.coldAt_fresh (t : Tables) (key : String) : (fresh (.tables t)).ColdAt t key :=
  ⟨rfl, rfl, rfl, fun _ he => absurd he List.not_mem_nil⟩

/-- What a program does about other keys leaves a key cold. -/
theorem Backend.ColdAt.run {t : Tables} {key : String} {p : Program α} (hp : p.Avoids key)
    {b : Backend} (hb : b.ColdAt t key) : (p.run services b).2.ColdAt t key := by
  induction p generalizing b with
  | done a => exact hb
  | lookup k next ih =>
    refine ih _ (hp.2 _) ?_
    change (b.lookup k).2.ColdAt t key
    rw [lookup, hb.lookups]
    exact ⟨rfl, hb.writes, hb.source, hb.cold.get _ _⟩
  | store k text ttl next ih =>
    refine ih _ (hp.2 _) ?_
    change (b.store k text ttl).2.ColdAt t key
    rw [store, hb.writes]
    exact ⟨hb.lookups, rfl, hb.source, hb.cold.set hp.1 _ _ _⟩
  | ask statement next ih =>
    refine ih _ (hp _) ⟨hb.lookups, hb.writes, ?_, hb.cold⟩
    change (b.source.answer statement).2 = .tables t
    rw [hb.source]
    rfl
  | enter k next ih => exact ih hp.2 ⟨hb.lookups, hb.writes, hb.source, hb.cold⟩
  | leave k next ih => exact ih hp.2 ⟨hb.lookups, hb.writes, hb.source, hb.cold⟩
  | compute next ih => exact ih hp ⟨hb.lookups, hb.writes, hb.source, hb.cold⟩

theorem Backend.Unstored.trans {a b c : Backend} (h : a.Unstored b) (h' : b.Unstored c) :
    a.Unstored c :=
  ⟨fun e he => h.entries e (h'.entries e he), h'.writes.trans h.writes⟩

namespace Gateway

variable [Payload α] (g : Gateway) {t : Tables} {key : String} {b : Backend}

theorem run_get_cold (hb : b.ColdAt t key) :
    ∃ b', (g.get key : Analysis (Option α)).run.run Backend.services b = (.ok none, b') ∧
      b'.ColdAt t key ∧ b.Unstored b' := by
  have hsnd : b.cache.get b.now key = (none, (b.cache.get b.now key).2) := by
    rw [← hb.cold.find?, ← CacheStore.get_fst]
  rw [Analysis.run_get_eq]
  change ∃ b', (((b.lookup key).1.within _ _).map _, (b.lookup key).2) = (_, b') ∧ _
  rw [Backend.lookup, hb.lookups, hsnd]
  exact ⟨_, rfl, ⟨rfl, hb.writes, hb.source, hb.cold.get _ _⟩,
    fun e => CacheStore.mem_of_mem_get, CacheStore.writes_get _ _ _⟩

variable {g} (ttl : Option ℕ) (statement : Statement) (f : List Row → Except Fault α)

theorem run_computeAndStore_asked (hb : b.ColdAt t key) : ∃ b',
    (g.computeAndStore key ttl (do let rows ← Analysis.ask statement; f rows)).run.run
        Backend.services b = (f (t.answer statement), b') ∧
      ∀ e, f (t.answer statement) = .error e → b.Unstored b' := by
  have hask : ((do let rows ← Analysis.ask statement; f rows : Analysis α)).run.run
      Backend.services b = (f (t.answer statement), (b.ask statement).2) := by
    rw [Analysis.run_bind]
    have hreply : (b.ask statement).1 = .ok (t.answer statement) := by
      rw [Backend.ask, hb.source]
      rfl
    have hrun : (Analysis.ask statement).run.run Backend.services b
        = (.ok (t.answer statement), (b.ask statement).2) := by
      rw [← hreply]
      rfl
    rw [hrun]
    rfl
  rw [computeAndStore, Analysis.run_bind, hask]
  cases hf : f (t.answer statement) with
  | error e => exact ⟨_, rfl, fun _ _ => ⟨fun _ he => he, rfl⟩⟩
  | ok v =>
    have hstore : ((b.ask statement).2.store key (Payload.write v) ttl).1 = .answered () := by
      have hwrites : (b.ask statement).2.writes = .healthy := hb.writes
      rw [Backend.store, hwrites]
    refine ⟨((b.ask statement).2.store key (Payload.write v) ttl).2, ?_, fun e h => by cases h⟩
    have hset : (g.set key v ttl).run.run Backend.services (b.ask statement).2
        = (.ok (), ((b.ask statement).2.store key (Payload.write v) ttl).2) := by
      rw [Analysis.run_set_eq]
      exact congrArg (fun reply : Reply Unit => (reply.within _ _, _)) hstore
    dsimp only
    rw [Analysis.run_bind, hset]
    rfl

theorem run_fetch_asked (hb : b.ColdAt t key) : ∃ b',
    (g.fetch key ttl (do let rows ← Analysis.ask statement; f rows)).run.run
        Backend.services b = (f (t.answer statement), b') ∧
      ∀ e, f (t.answer statement) = .error e → b.Unstored b' := by
  obtain ⟨b', hrun, hcold, hkept⟩ := run_get_cold (α := α) g hb
  obtain ⟨b'', hrun', hkept'⟩ := run_computeAndStore_asked (g := g) ttl statement f hcold
  rw [fetch, Analysis.run_bind, hrun]
  exact ⟨b'', hrun', fun e he => hkept.trans (hkept' e he)⟩

/-- Over a working backend where the key is cold a value that is made of one statement's rows is
made of them, and nothing is stored when that fails. -/
theorem run_asked (hb : b.ColdAt t key) : ∃ b',
    (g.getOrComputeFor key ttl (do let rows ← Analysis.ask statement; f rows)).run.run
        Backend.services b = (f (t.answer statement), b') ∧
      ∀ e, f (t.answer statement) = .error e → b.Unstored b' := by
  unfold getOrComputeFor
  cases g.strategy with
  | aside => exact run_fetch_asked ttl statement f hb
  | singleFlight =>
    obtain ⟨b', hrun, hcold, hkept⟩ := run_get_cold (α := α) g hb
    have hentered : (b'.enter 0 key).ColdAt t key :=
      ⟨hcold.lookups, hcold.writes, hcold.source, hcold.cold⟩
    obtain ⟨b'', hrun', hkept'⟩ := run_fetch_asked (g := g) ttl statement f hentered
    have hturn := Analysis.run_turn Backend.services
      (g.fetch key ttl (do let rows ← Analysis.ask statement; f rows)) key b'
    dsimp only
    rw [fetchInTurn, Analysis.run_bind, hrun]
    refine ⟨b''.leave 0 key, ?_, fun e he => ?_⟩
    · exact hturn.trans (congrArg (fun r => (r.1, Backend.leave 0 key r.2)) hrun')
    · exact hkept.trans ⟨(hkept' e he).entries, (hkept' e he).writes⟩

end Gateway

/-- Steps about keys of their own, all of them cold, give what they give with nothing cached. -/
theorem Analysis.run_mapM_cold {t : Tables} {f : β → Analysis α} {key : β → String}
    (hrun : ∀ (a : β) (b : Backend), b.ColdAt t (key a) →
      ((f a).run.run Backend.services b).1 = plain t (f a))
    (huses : ∀ a, (f a).run.Uses (· = key a)) : ∀ {items : List β} {b : Backend},
      (items.map key).Nodup → (∀ a ∈ items, b.ColdAt t (key a)) →
        ((items.mapM f).run.run Backend.services b).1 = plain t (items.mapM f)
  | [], _, _, _ => rfl
  | a :: items, b, hnodup, hb => by
    rw [List.map_cons, List.nodup_cons] at hnodup
    have hfirst := hrun a b (hb a List.mem_cons_self)
    have hrest : ∀ c ∈ items, ((f a).run.run Backend.services b).2.ColdAt t (key c) := by
      intro c hc
      have hne : key c ≠ key a := fun h => hnodup.1 (h ▸ List.mem_map_of_mem hc)
      exact (hb c (List.mem_cons_of_mem a hc)).run ((huses a).avoids hne)
    have ih := run_mapM_cold hrun huses hnodup.2 hrest
    rw [List.mapM_cons, plain_bind, ← hfirst, run_bind]
    generalize (f a).run.run Backend.services b = r at ih
    rcases r with ⟨_ | v, b'⟩
    · rfl
    · dsimp only at ih ⊢
      rw [run_bind]
      change _ = plain t (items.mapM f >>= fun vs => pure (v :: vs))
      rw [plain_bind, ← ih]
      generalize (items.mapM f).run.run Backend.services b' = r
      rcases r with ⟨_ | _, _⟩ <;> rfl

end Bourse
