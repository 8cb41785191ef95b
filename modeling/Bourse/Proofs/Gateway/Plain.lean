import Mathlib.Data.Nat.Notation
import Bourse.Gateway
import Bourse.Proofs.Outcome
import Bourse.Tables

/-!
# Plain outcomes

What an analysis of some tables gives when nothing is ever cached (`plain`). A gateway that finds
nothing only computes, so what is kept has the plain outcome of its computation
(`plain_getOrComputeFor`).
-/

namespace Bourse

variable {α β : Type}

namespace Analysis

section Runs

variable {σ : Type} (services : Services σ)

/-- An analysis that goes on runs its second part unless the first one fails. -/
theorem run_bind (a : Analysis α) (f : α → Analysis β) (s : σ) :
    (a >>= f).run.run services s =
      match a.run.run services s with
      | (.ok x, s) => (f x).run.run services s
      | (.error e, s) => (.error e, s) := by
  rw [ExceptT.run_bind]
  change (Program.bind _ _).run services s = _
  rw [Program.run_bind]
  rcases a.run.run services s with ⟨_ | _, _⟩ <;> rfl

theorem run_attempt (a : Analysis α) (s : σ) :
    (attempt a).run.run services s
      = (.ok (a.run.run services s).1, (a.run.run services s).2) := by
  change (Program.bind _ _).run services s = _
  rw [Program.run_bind]
  rfl

end Runs

end Analysis

/-- Tables behind a cache that never has anything. -/
def uncached (t : Tables) : Services Unit where
  lookup _ s := (.answered none, s)
  store _ _ _ s := (.answered (), s)
  ask statement s := (.ok (t.answer statement), s)
  enter _ s := s
  leave _ s := s
  compute s := s

/-- The outcome of an analysis of some tables with nothing cached. -/
def Analysis.plain (t : Tables) (a : Analysis α) : Except Fault α :=
  (a.run.run (uncached t) ()).1

namespace Analysis

variable (t : Tables)

theorem plain_bind (a : Analysis α) (f : α → Analysis β) :
    plain t (a >>= f) = plain t a >>= fun x => plain t (f x) := by
  unfold plain
  rw [run_bind]
  rcases a.run.run (uncached t) () with ⟨_ | _, _⟩ <;> rfl

/-- A sequence gives a value when its first part gives one from which the second gives it. -/
theorem of_plain_bind {t : Tables} {a : Analysis α} {f : α → Analysis β} {y : β}
    (h : plain t (a >>= f) = .ok y) : ∃ x, plain t a = .ok x ∧ plain t (f x) = .ok y :=
  of_bind_eq_ok (plain_bind t a f ▸ h)

theorem plain_map (a : Analysis α) (f : α → β) : plain t (f <$> a) = f <$> plain t a := by
  rw [← bind_pure_comp, plain_bind]
  cases plain t a <;> rfl

theorem plain_mapM (f : α → Analysis β) : ∀ items : List α,
    plain t (items.mapM f) = items.mapM fun a => plain t (f a)
  | [] => rfl
  | a :: items => by
    simp only [List.mapM_cons, plain_bind, plain_mapM f items]
    rfl

section Gateway

variable [Payload α] (g : Gateway) (key : String) (ttl : Option ℕ) (computation : Analysis α)

theorem plain_computeAndStore :
    plain t (g.computeAndStore key ttl computation) = plain t computation := by
  rw [Gateway.computeAndStore, plain_bind]
  cases plain t computation <;> rfl

theorem plain_fetch : plain t (g.fetch key ttl computation) = plain t computation :=
  plain_computeAndStore t g key ttl computation

theorem plain_fetchInTurn : plain t (g.fetchInTurn key ttl computation) = plain t computation := by
  change plain t (attempt (g.fetch key ttl computation) >>= _) = _
  have hattempt : plain t (attempt (g.fetch key ttl computation))
      = .ok (plain t computation) := by
    rw [plain, run_attempt]
    exact congrArg Except.ok (plain_fetch t g key ttl computation)
  rw [plain_bind, hattempt]
  cases plain t computation <;> rfl

/-- A gateway that finds nothing only computes. -/
theorem plain_getOrComputeFor :
    plain t (g.getOrComputeFor key ttl computation) = plain t computation := by
  unfold Gateway.getOrComputeFor
  cases g.strategy with
  | aside => exact plain_fetch t g key ttl computation
  | singleFlight => exact plain_fetchInTurn t g key ttl computation

end Gateway

end Analysis

end Bourse
