import Bourse.Gateway
import Bourse.Proofs.Program.Steps

/-!
# What a program does

Each step of a program is an act, and which acts there may be at all, whatever the program is
replied, is read off the program part by part (`Program.Within`): there is one rule for each step
and for sequences, and from these one for each operation of a gateway. A property with a rule for
sequences (`Analysis.Composes`) goes from the parts of an analysis to all of it.
-/

namespace Bourse

variable {α β : Type}

/-- Sequences have the property when their parts do. -/
structure Analysis.Composes (P : (α : Type) → Analysis α → Prop) : Prop where
  lift : ∀ {α : Type} (outcome : Except Fault α), P α (liftM outcome)
  bind : ∀ {α β : Type} {a : Analysis α} {f : α → Analysis β},
    P α a → (∀ x, P β (f x)) → P β (a >>= f)

namespace Analysis.Composes

variable {P : (α : Type) → Analysis α → Prop} (hP : Composes P) {α β : Type}

include hP

theorem pure (x : α) : P α (Pure.pure x) :=
  hP.lift (.ok x)

theorem throw (fault : Fault) : P α (MonadExcept.throw fault) :=
  hP.lift (.error fault)

theorem map {a : Analysis α} (ha : P α a) (f : α → β) : P β (f <$> a) := by
  rw [← bind_pure_comp]
  exact hP.bind ha fun x => hP.pure (f x)

theorem mapM {f : α → Analysis β} (hf : ∀ a, P β (f a)) :
    ∀ items : List α, P (List β) (items.mapM f)
  | [] => hP.pure []
  | a :: items => by
    rw [List.mapM_cons]
    exact hP.bind (hf a) fun b => hP.bind (mapM hf items) fun bs => hP.pure (b :: bs)

end Analysis.Composes

/-- What a program does in a step. The texts it stores are left out. -/
inductive Act where
  | lookup (key : String)
  | store (key : String)
  | ask (statement : Statement)
  | enter (key : String)
  | leave (key : String)
  | compute

/-- The act is about the key. -/
def Act.On (key : String) : Act → Prop
  | .lookup k | .store k | .enter k | .leave k => k = key
  | .ask _ | .compute => False

namespace Program

variable {allowed : Act → Prop} {p : Program α}

/-- The program does nothing that is not allowed, whatever it is replied. -/
def Within (allowed : Act → Prop) : Program α → Prop
  | .done _ => True
  | .lookup key next => allowed (.lookup key) ∧ ∀ reply, (next reply).Within allowed
  | .store key _ _ next => allowed (.store key) ∧ ∀ reply, (next reply).Within allowed
  | .ask statement next => allowed (.ask statement) ∧ ∀ reply, (next reply).Within allowed
  | .enter key next => allowed (.enter key) ∧ next.Within allowed
  | .leave key next => allowed (.leave key) ∧ next.Within allowed
  | .compute next => allowed .compute ∧ next.Within allowed

theorem Within.bind (hp : p.Within allowed) {f : α → Program β}
    (hf : ∀ a, (f a).Within allowed) : (p.bind f).Within allowed := by
  induction p with
  | done a => exact hf a
  | lookup key next ih => exact ⟨hp.1, fun reply => ih reply (hp.2 reply)⟩
  | store key text ttl next ih => exact ⟨hp.1, fun reply => ih reply (hp.2 reply)⟩
  | ask statement next ih => exact ⟨hp.1, fun reply => ih reply (hp.2 reply)⟩
  | enter key next ih => exact ⟨hp.1, ih hp.2⟩
  | leave key next ih => exact ⟨hp.1, ih hp.2⟩
  | compute next ih => exact ⟨hp.1, ih hp.2⟩

/-- A program whose acts are about keys of some kind uses no other keys. -/
theorem Within.uses {P : String → Prop} (hp : p.Within fun act => ∀ key, act.On key → P key) :
    p.Uses P := by
  induction p with
  | done a => trivial
  | lookup key next ih => exact ⟨hp.1 key rfl, fun reply => ih reply (hp.2 reply)⟩
  | store key text ttl next ih => exact ⟨hp.1 key rfl, fun reply => ih reply (hp.2 reply)⟩
  | ask statement next ih => exact fun reply => ih reply (hp.2 reply)
  | enter key next ih => exact ⟨hp.1 key rfl, ih hp.2⟩
  | leave key next ih => exact ⟨hp.1 key rfl, ih hp.2⟩
  | compute next ih => exact ih hp.2

end Program

variable {allowed : Act → Prop}

namespace Analysis

theorem within_lift (outcome : Except Fault α) :
    (liftM outcome : Analysis α).run.Within allowed :=
  trivial

theorem within_pure (x : α) : (pure x : Analysis α).run.Within allowed :=
  trivial

theorem within_throw (fault : Fault) : (throw fault : Analysis α).run.Within allowed :=
  trivial

theorem within_ask {statement : Statement} (h : allowed (.ask statement)) :
    (ask statement).run.Within allowed :=
  ⟨h, fun _ => trivial⟩

theorem within_lookup {key : String} (h : allowed (.lookup key)) :
    (lookup key).run.Within allowed :=
  ⟨h, fun _ => trivial⟩

theorem within_store {key : String} (h : allowed (.store key)) (text : String) (ttl : Option ℕ) :
    (store key text ttl).run.Within allowed :=
  ⟨h, fun _ => trivial⟩

theorem within_enter {key : String} (h : allowed (.enter key)) : (enter key).run.Within allowed :=
  ⟨h, trivial⟩

theorem within_leave {key : String} (h : allowed (.leave key)) : (leave key).run.Within allowed :=
  ⟨h, trivial⟩

theorem within_bind {a : Analysis α} (ha : a.run.Within allowed) {f : α → Analysis β}
    (hf : ∀ x, (f x).run.Within allowed) : (a >>= f).run.Within allowed :=
  ha.bind fun outcome => match outcome with
    | .ok x => hf x
    | .error _ => trivial

theorem within_attempt {a : Analysis α} (ha : a.run.Within allowed) :
    (attempt a).run.Within allowed :=
  ha.bind fun _ => trivial

variable (allowed) in
theorem composes_within : Composes fun _ a => a.run.Within allowed where
  lift := within_lift
  bind ha hf := within_bind ha hf

end Analysis

namespace Analysis.Composes

variable {P : (α : Type) → Analysis α → Prop} (hP : Composes P) [Payload α] (g : Gateway)
  {key : String} {ttl : Option ℕ}

include hP

/-- A request looks its key up, and whatever else it does it does when the key is missed. -/
theorem missed (hlookup : P _ (lookup key)) {rest : Analysis α} (hrest : P α rest) :
    P α (do match ← g.get key with
      | some hit => return hit
      | none => rest) := by
  have hget : P (Option α) (g.get key) := hP.bind hlookup fun _ => hP.bind (hP.lift _) fun _ =>
    hP.pure _
  refine hP.bind hget fun cached => ?_
  rcases cached with _ | hit
  · exact hrest
  · exact hP.pure hit

theorem computeAndStore (hstore : ∀ text, P _ (store key text ttl)) {computation : Analysis α}
    (hcomputation : P α computation) : P α (g.computeAndStore key ttl computation) := by
  have hset : ∀ value : α, P Unit (g.set key value ttl) := fun value =>
    hP.bind (hstore _) fun _ => hP.lift _
  exact hP.bind hcomputation fun value => hP.bind (hset value) fun _ => hP.pure _

end Analysis.Composes

namespace Gateway

open Analysis

variable [Payload α] (g : Gateway) {key : String} {ttl : Option ℕ} {computation : Analysis α}

/-- A request for a key does what the computation and the write of its value do, and besides it
looks the key up and takes its turn. -/
theorem within_getOrComputeFor (hlookup : allowed (.lookup key)) (henter : allowed (.enter key))
    (hleave : allowed (.leave key))
    (hcomputed : (g.computeAndStore key ttl computation).run.Within allowed) :
    (g.getOrComputeFor key ttl computation).run.Within allowed := by
  have hP := composes_within allowed
  have hfetch : (g.fetch key ttl computation).run.Within allowed :=
    hP.missed g (within_lookup hlookup) hcomputed
  unfold getOrComputeFor
  cases g.strategy with
  | aside => exact hfetch
  | singleFlight =>
    refine hP.missed g (within_lookup hlookup) ?_
    exact within_bind (within_enter henter) fun _ =>
      within_bind (within_attempt hfetch) fun _ =>
        within_bind (within_leave hleave) fun _ => within_lift _

/-- What is kept under a key that all may be done with. -/
theorem within_kept (hkey : ∀ act : Act, act.On key → allowed act)
    (hcomputation : computation.run.Within allowed) :
    (g.getOrComputeFor key ttl computation).run.Within allowed :=
  g.within_getOrComputeFor (hkey _ rfl) (hkey _ rfl) (hkey _ rfl)
    ((composes_within allowed).computeAndStore g (fun _ => within_store (hkey _ rfl) _ _)
      hcomputation)

end Gateway

end Bourse
