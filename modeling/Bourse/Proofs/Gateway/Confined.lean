import Bourse.Proofs.Gateway.Conditions
import Bourse.Proofs.Gateway.Kept

/-!
# Confined effects

What a program does to a cache is confined to the keys that it uses (`Program.Uses.confined`): no
entry of another key is added or changed, and a live one stays. A value that is kept under a key is
stored at the very end, so when that fails the effects are those of its computation
(`confined_getOrComputeFor`).
-/

namespace Bourse

variable {α : Type}

/-- Between two moments of a backend entries came only under keys of some kind. Others, as long as
they live, are still there. -/
structure Backend.Confined (P : String → Prop) (b later : Backend) : Prop where
  now : b.now ≤ later.now
  added : ∀ e ∈ later.cache.entries, e ∈ b.cache.entries ∨ P e.1
  alive : ∀ {key}, ¬P key → ∀ {last text}, later.now ≤ last → b.cache.Warm last key text →
    later.cache.Warm last key text

namespace Backend.Confined

variable {P : String → Prop} {b b' b'' : Backend}

theorem of_cache_eq (hcache : b'.cache = b.cache) (hnow : b.now ≤ b'.now) : Confined P b b' :=
  ⟨hnow, fun _ he => .inl (hcache ▸ he), fun _ _ _ _ h => hcache ▸ h⟩

theorem refl (P : String → Prop) (b : Backend) : Confined P b b :=
  of_cache_eq rfl (Nat.le_refl _)

theorem mono {Q : String → Prop} (h : Confined P b b') (hPQ : ∀ {key}, P key → Q key) :
    Confined Q b b' :=
  ⟨h.now, fun e he => (h.added e he).imp_right hPQ, fun hkey _ _ => h.alive fun hp => hkey (hPQ hp)⟩

theorem trans (h : Confined P b b') (h' : Confined P b' b'') : Confined P b b'' where
  now := Nat.le_trans h.now h'.now
  added e he := (h'.added e he).elim (h.added e) .inr
  alive hkey _ _ hlast hwarm := h'.alive hkey hlast (h.alive hkey (Nat.le_trans h'.now hlast) hwarm)

end Backend.Confined

open Backend (Confined)

section Steps

variable {P : String → Prop} (c : Conditions) (key : String) (b : Backend)

variable {c b} in
/-- Time passes, and the cache is left alone. -/
theorem Backend.Confined.idle {b' : Backend} (hcache : b'.cache = b.cache)
    (hnow : b'.now = b.now + c.delay b) : Confined P b b' :=
  .of_cache_eq hcache (hnow ▸ Nat.le_add_right _ _)

theorem confined_lookup : Confined P b ((Backend.under c).lookup key b).2 := by
  simp only [Backend.under]
  cases c.lookup (b.elapse (c.delay b)) key with
  | refused fault => exact .idle rfl rfl
  | stalled => exact .idle rfl rfl
  | served =>
    dsimp only
    unfold Backend.lookup
    split
    · exact .idle rfl rfl
    · exact .idle rfl rfl
    · exact ⟨Nat.le_add_right _ _, fun _ he => .inl (CacheStore.mem_of_mem_get he),
        fun _ _ _ hlast hwarm => hwarm.get hlast _⟩

theorem confined_store (hkey : P key) (text : String) (ttl : Option ℕ) :
    Confined P b ((Backend.under c).store key text ttl b).2 := by
  simp only [Backend.under]
  cases c.write (b.elapse (c.delay b)) key with
  | refused fault => exact .idle rfl rfl
  | stalled => exact .idle rfl rfl
  | served =>
    dsimp only
    unfold Backend.store
    split
    · exact .idle rfl rfl
    · exact .idle rfl rfl
    · refine ⟨Nat.le_add_right _ _, fun e he => ?_, fun hother _ _ hlast hwarm => ?_⟩
      · refine (CacheStore.mem_of_mem_set he).imp_right fun heq => ?_
        rwa [heq]
      · refine hwarm.set hlast ?_ _ _
        rintro rfl
        exact hother hkey

/-- A write that is not answered has no effect. -/
theorem confined_unanswered (text : String) (ttl : Option ℕ)
    (h : ((Backend.under c).store key text ttl b).1 ≠ .answered ()) :
    Confined P b ((Backend.under c).store key text ttl b).2 := by
  revert h
  simp only [Backend.under]
  cases c.write (b.elapse (c.delay b)) key with
  | refused fault => exact fun _ => .idle rfl rfl
  | stalled => exact fun _ => .idle rfl rfl
  | served =>
    dsimp only
    unfold Backend.store
    split
    · exact fun _ => .idle rfl rfl
    · exact fun _ => .idle rfl rfl
    · exact fun h => absurd rfl h

theorem confined_ask (statement : Statement) :
    Confined P b ((Backend.under c).ask statement b).2 := by
  simp only [Backend.under]
  cases c.fault? (b.elapse (c.delay b)) statement with
  | some fault => exact .idle rfl rfl
  | none => exact .idle rfl rfl

end Steps

/-- What a program does is confined to the keys that it uses. -/
theorem Program.Uses.confined {P : String → Prop} {p : Program α} (hp : p.Uses P) (c : Conditions)
    (b : Backend) : Confined P b (p.run (Backend.under c) b).2 := by
  induction p generalizing b with
  | done a => exact .refl P b
  | lookup key next ih => exact (confined_lookup c key b).trans (ih _ (hp.2 _) _)
  | store key text ttl next ih =>
    exact (confined_store c key b hp.1 text ttl).trans (ih _ (hp.2 _) _)
  | ask statement next ih => exact (confined_ask c b statement).trans (ih _ (hp _) _)
  | enter key next ih =>
    have hstep : Confined P b ((Backend.under c).enter key b) := .idle rfl rfl
    exact hstep.trans (ih hp.2 _)
  | leave key next ih =>
    have hstep : Confined P b ((Backend.under c).leave key b) := .idle rfl rfl
    exact hstep.trans (ih hp.2 _)
  | compute next ih =>
    have hstep : Confined P b ((Backend.under c).compute b) := .idle rfl rfl
    exact hstep.trans (ih hp _)

namespace Analysis

variable [Payload α] {P : String → Prop} {c : Conditions} {g : Gateway} {key : String}
  {ttl : Option ℕ} {computation : Analysis α} (h : computation.run.Uses P) {b : Backend} {e : Fault}

include h

theorem confined_computeAndStore
    (he : ((g.computeAndStore key ttl computation).run.run (Backend.under c) b).1 = .error e) :
    Confined P b ((g.computeAndStore key ttl computation).run.run (Backend.under c) b).2 := by
  have hcomputed := h.confined c b
  rw [Gateway.computeAndStore, run_bind] at he ⊢
  change Confined P b (computation.run.run (Backend.under c) b).2 at hcomputed
  generalize computation.run.run (Backend.under c) b = r at hcomputed he
  rcases r with ⟨_ | v, b'⟩
  · exact hcomputed
  · dsimp only at he ⊢
    rw [run_bind, run_set_eq] at he ⊢
    have hstored := confined_unanswered (P := P) c key b' (Payload.write v) ttl
    generalize (Backend.under c).store key (Payload.write v) ttl b' = r at hstored he
    -- An answered write is the one way to add an entry under the key, and then nothing has failed.
    rcases r with ⟨_ | _ | _, b''⟩
    · cases he
    · exact hcomputed.trans (hstored (by simp))
    · exact hcomputed.trans (hstored (by simp))

omit h in
/-- A lookup has no effect, so a failure leaves what is done when the key is missed. -/
theorem confined_missed {rest : Analysis α}
    (hrest : ∀ {b e}, (rest.run.run (Backend.under c) b).1 = .error e →
      Confined P b (rest.run.run (Backend.under c) b).2)
    (he : ((do match ← g.get key with
      | some hit => return hit
      | none => rest : Analysis α).run.run (Backend.under c) b).1 = .error e) :
    Confined P b ((do match ← g.get key with
      | some hit => return hit
      | none => rest : Analysis α).run.run (Backend.under c) b).2 := by
  have hlookup := confined_lookup (P := P) c key b
  rw [run_bind, run_get_eq] at he ⊢
  generalize (Backend.under c).lookup key b = r at hlookup he
  rcases r with ⟨text | _ | _, b'⟩
  · simp only [Reply.within, Except.map] at he ⊢
    cases hread : text.bind (Payload.read (α := α)) with
    | some v =>
      rw [hread] at he
      cases he
    | none =>
      rw [hread] at he
      exact hlookup.trans (hrest he)
  · exact hlookup
  · exact hlookup

theorem confined_fetch
    (he : ((g.fetch key ttl computation).run.run (Backend.under c) b).1 = .error e) :
    Confined P b ((g.fetch key ttl computation).run.run (Backend.under c) b).2 :=
  confined_missed (confined_computeAndStore h) he

theorem confined_fetchInTurn
    (he : ((g.fetchInTurn key ttl computation).run.run (Backend.under c) b).1 = .error e) :
    Confined P b ((g.fetchInTurn key ttl computation).run.run (Backend.under c) b).2 := by
  refine confined_missed (fun {b e} he => ?_) he
  rw [run_turn] at he ⊢
  have hentered : Confined P b ((Backend.under c).enter key b) := .idle rfl rfl
  exact (hentered.trans (confined_fetch h he)).trans (.idle rfl rfl)

/-- What is kept under a key is stored at the end, so a failure leaves no more than the effects of
the computation. -/
theorem confined_getOrComputeFor
    (he : ((g.getOrComputeFor key ttl computation).run.run (Backend.under c) b).1 = .error e) :
    Confined P b ((g.getOrComputeFor key ttl computation).run.run (Backend.under c) b).2 := by
  unfold Gateway.getOrComputeFor at he ⊢
  cases hstrategy : g.strategy with
  | aside =>
    rw [hstrategy] at he
    exact confined_fetch h he
  | singleFlight =>
    rw [hstrategy] at he
    exact confined_fetchInTurn h he

end Analysis

end Bourse
