import Bourse.Proofs.Program.Acts

/-!
# Locks that a program takes

Which locks a program asks for while it holds others is read off the program, whatever it is replied
(`Program.Nests`). Locks are given back in the opposite order, so a sequence holds in between what
its first part leaves it (`Program.Nests.bind`). A request for a key asks for the lock of that key
before it computes, and its computation runs with the lock held (`Gateway.nests_getOrComputeFor`).
-/

namespace Bourse

variable {α β : Type} {rule : String → String → Prop} {held mid last : List String}

namespace Program

/-- A program that holds the locks `held`, the latest first, asks for another only where the rule
allows it beside each of them, gives back only the latest one, and holds the locks `last` when it is
done. -/
def Nests (rule : String → String → Prop) : List String → List String → Program α → Prop
  | held, last, .done _ => held = last
  | held, last, .lookup _ next => ∀ reply, (next reply).Nests rule held last
  | held, last, .store _ _ _ next => ∀ reply, (next reply).Nests rule held last
  | held, last, .ask _ next => ∀ reply, (next reply).Nests rule held last
  | held, last, .enter key next => (∀ k ∈ held, rule k key) ∧ next.Nests rule (key :: held) last
  | held, last, .leave key next => held.head? = some key ∧ next.Nests rule held.tail last
  | held, last, .compute next => next.Nests rule held last

theorem Nests.bind {p : Program α} (hp : p.Nests rule held mid) {f : α → Program β}
    (hf : ∀ a, (f a).Nests rule mid last) : (p.bind f).Nests rule held last := by
  induction p generalizing held with
  | done a =>
    obtain rfl := hp
    exact hf a
  | lookup key next ih => exact fun reply => ih reply (hp reply)
  | store key text ttl next ih => exact fun reply => ih reply (hp reply)
  | ask statement next ih => exact fun reply => ih reply (hp reply)
  | enter key next ih => exact ⟨hp.1, ih hp.2⟩
  | leave key next ih => exact ⟨hp.1, ih hp.2⟩
  | compute next ih => exact ih hp

end Program

namespace Analysis

/-- Beside the locks that it holds, a sequence takes those of its parts. -/
theorem composes_nests (rule : String → String → Prop) (held : List String) :
    Composes fun _ a => a.run.Nests rule held held where
  lift _ := rfl
  bind ha hf := ha.bind fun outcome => match outcome with
    | .ok x => hf x
    | .error _ => rfl

theorem nests_ask (statement : Statement) : (ask statement).run.Nests rule held held :=
  fun _ => rfl

/-- An attempt goes on with the locks that it leaves, whatever its outcome. -/
theorem nests_attempt_bind {a : Analysis α} (ha : a.run.Nests rule held mid)
    {f : Except Fault α → Analysis β} (hf : ∀ outcome, (f outcome).run.Nests rule mid last) :
    (attempt a >>= f).run.Nests rule held last := by
  have hrun : (attempt a >>= f).run = a.run.bind fun outcome => (f outcome).run :=
    Program.bind_assoc ..
  rw [hrun]
  exact ha.bind hf

end Analysis

namespace Gateway

open Analysis

variable [Payload α] (g : Gateway) {key : String} {ttl : Option ℕ} {computation : Analysis α}

theorem nests_fetch (hcomputation : computation.run.Nests rule held held) :
    (g.fetch key ttl computation).run.Nests rule held held :=
  have hP := composes_nests rule held
  hP.missed g (fun _ => rfl) (hP.computeAndStore g (fun _ _ => rfl) hcomputation)

/-- A request for a key takes its lock where the rule allows it, and the locks of its computation
beside that one. -/
theorem nests_getOrComputeFor (hkey : ∀ k ∈ held, rule k key)
    (halone : computation.run.Nests rule held held)
    (hlocked : computation.run.Nests rule (key :: held) (key :: held)) :
    (g.getOrComputeFor key ttl computation).run.Nests rule held held := by
  unfold getOrComputeFor
  cases g.strategy with
  | aside => exact g.nests_fetch halone
  | singleFlight =>
    refine (composes_nests rule held).missed g (fun _ => rfl) ⟨hkey, ?_⟩
    exact nests_attempt_bind (g.nests_fetch hlocked) fun outcome =>
      ⟨rfl, (composes_nests rule held).lift outcome⟩

end Gateway

end Bourse
