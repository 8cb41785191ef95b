import Bourse.Backend
import Bourse.Proofs.Cache.Store
import Bourse.Proofs.Gateway.Plain
import Bourse.Proofs.Program.Steps

/-!
# Conditions

What befalls an analysis while it runs (`Conditions`): time passes before each step, calls to the
cache are refused or stall, statements fail, and rows come in some order. A backend is sound when it
works and every text it keeps is true for its key. Under given conditions an analysis gives an
outcome (`Gives`) when it comes to that one from every sound backend, unless something fails, and
leaves the backend sound; it is steady when it gives its plain outcome. What sequences of analyses
give follows from their parts (`Gives.bind`, `Steady.bind`).
-/

namespace Bourse

variable {α β : Type}

/-- What becomes of a call to the cache. -/
inductive Luck where
  | served
  | refused (fault : Fault)
  | stalled

/-- What befalls the steps of an analysis. All of it may depend on everything that happened so
far. -/
structure Conditions where
  /-- The time that passes before a step, in milliseconds. -/
  delay : Backend → ℕ
  lookup : Backend → String → Luck
  write : Backend → String → Luck
  fault? : Backend → Statement → Option Fault
  /-- The order that the rows of a statement come in. -/
  order : Backend → Statement → List Row → List Row
  order_perm : ∀ b statement rows, (order b statement rows).Perm rows

namespace Conditions

/-- Nothing fails. -/
structure Faultless (c : Conditions) : Prop where
  lookup : ∀ b key, c.lookup b key = .served
  write : ∀ b key, c.write b key = .served
  fault? : ∀ b statement, c.fault? b statement = none

/-- Rows come in the order of the tables. -/
def InOrder (c : Conditions) : Prop :=
  ∀ b statement rows, c.order b statement rows = rows

/-- All that happens is that time passes. -/
def calm (delay : Backend → ℕ) : Conditions where
  delay := delay
  lookup _ _ := .served
  write _ _ := .served
  fault? _ _ := none
  order _ _ rows := rows
  order_perm _ _ rows := .refl rows

theorem faultless_calm (delay : Backend → ℕ) : (calm delay).Faultless :=
  ⟨fun _ _ => rfl, fun _ _ => rfl, fun _ _ => rfl⟩

theorem inOrder_calm (delay : Backend → ℕ) : (calm delay).InOrder :=
  fun _ _ _ => rfl

end Conditions

/-- A backend under some conditions. A call to the cache that is not served leaves the cache as it
was. -/
def Backend.under (c : Conditions) : Services Backend where
  lookup key b :=
    let b := b.elapse (c.delay b)
    match c.lookup b key with
    | .served => b.lookup key
    | .refused fault => (.refused fault, b.note (.lookupRefused key))
    | .stalled => (.stalled, b.note (.lookupStalled key))
  store key text ttl b :=
    let b := b.elapse (c.delay b)
    match c.write b key with
    | .served => b.store key text ttl
    | .refused fault => (.refused fault, b.note (.writeRefused key))
    | .stalled => (.stalled, b.note (.writeStalled key))
  ask statement b :=
    let b := b.elapse (c.delay b)
    match c.fault? b statement with
    | some fault => (.error fault, b.note (.asked statement))
    | none => ((b.ask statement).1.map (c.order b statement), (b.ask statement).2)
  enter key b := (b.elapse (c.delay b)).enter 0 key
  leave key b := (b.elapse (c.delay b)).leave 0 key
  compute b := (b.elapse (c.delay b)).note .computed

/-- A backend whose clock moves before every step, by a time that may depend on everything that
happened so far. -/
def Backend.timed (delay : Backend → ℕ) : Services Backend where
  lookup key b := (b.elapse (delay b)).lookup key
  store key text ttl b := (b.elapse (delay b)).store key text ttl
  ask statement b := (b.elapse (delay b)).ask statement
  enter key b := (b.elapse (delay b)).enter 0 key
  leave key b := (b.elapse (delay b)).leave 0 key
  compute b := (b.elapse (delay b)).note .computed

theorem Backend.under_calm (delay : Backend → ℕ) : under (.calm delay) = timed delay := by
  have hask : ∀ (statement : Statement) (b : Backend),
      ((b.ask statement).1.map fun rows => rows, (b.ask statement).2) = b.ask statement := by
    intro statement b
    rcases b.ask statement with ⟨_ | _, _⟩ <;> rfl
  rw [timed, under]
  congr 1
  funext statement b
  exact hask statement _

/-- With a clock that stands still these are the services of a request alone. -/
theorem Backend.timed_zero : Backend.timed (fun _ => 0) = Backend.services := rfl

/-- A working backend over some tables that keeps nothing but true values; `truth` says which value
is the true one of a key. -/
structure Backend.Sound (t : Tables) (truth : String → Json → Prop) (b : Backend) : Prop where
  lookups : b.lookups = .healthy
  writes : b.writes = .healthy
  source : b.source = .tables t
  kept : b.cache.Everywhere fun key text => ∃ j, truth key j ∧ text = j.text

/-- The same fault, or values that are the same for our purposes. -/
inductive Agrees (same : α → α → Prop) : Except Fault α → Except Fault α → Prop
  | ok {a b : α} (h : same a b) : Agrees same (.ok a) (.ok b)
  | error (e : Fault) : Agrees same (.error e) (.error e)

theorem agrees_eq {x y : Except Fault α} (h : Agrees Eq x y) : x = y := by
  cases h with
  | ok h => rw [h]
  | error e => rfl

theorem agrees_refl (x : Except Fault α) : Agrees Eq x x := by
  cases x with
  | ok a => exact .ok rfl
  | error e => exact .error e

theorem Agrees.mono {same same' : α → α → Prop} {x y : Except Fault α} (hxy : Agrees same x y)
    (h : ∀ {a b}, same a b → same' a b) : Agrees same' x y := by
  cases hxy with
  | ok hab => exact .ok (h hab)
  | error e => exact .error e

/-- What may come instead of the expected outcome: one that agrees with it, or any fault where
something fails. -/
inductive Conditions.Allows (c : Conditions) (same : α → α → Prop) :
    Except Fault α → Except Fault α → Prop
  | agreed {x y : Except Fault α} (h : Agrees same x y) : Allows c same x y
  | failed (e : Fault) {y : Except Fault α} (h : ¬c.Faultless) : Allows c same (.error e) y

namespace Conditions

variable {c : Conditions}

theorem Allows.agrees {same : α → α → Prop} {x y : Except Fault α} (h : c.Allows same x y)
    (hc : c.Faultless) : Agrees same x y := by
  cases h with
  | agreed h => exact h
  | failed e h => exact absurd hc h

theorem Allows.mono {same same' : α → α → Prop} {x y : Except Fault α} (hxy : c.Allows same x y)
    (h : ∀ {a b}, same a b → same' a b) : c.Allows same' x y := by
  cases hxy with
  | agreed hxy => exact .agreed (hxy.mono h)
  | failed e hc => exact .failed e hc

end Conditions

namespace Analysis

variable (c : Conditions) (t : Tables) (truth : String → Json → Prop)

/-- From every sound backend the analysis comes to the outcome, as far as the conditions allow, and
it leaves the backend sound. -/
def Gives (same : α → α → Prop) (a : Analysis α) (outcome : Except Fault α) : Prop :=
  ∀ b : Backend, b.Sound t truth →
    c.Allows same (a.run.run (Backend.under c) b).1 outcome ∧
      (a.run.run (Backend.under c) b).2.Sound t truth

/-- The analysis gives its plain outcome. -/
def Steady (same : α → α → Prop) (a : Analysis α) : Prop :=
  Gives c t truth same a (a.plain t)

variable {c t truth}

theorem gives_ofExcept (outcome : Except Fault α) :
    Gives c t truth Eq (ofExcept outcome) outcome :=
  fun _ hb => ⟨.agreed (agrees_refl outcome), hb⟩

theorem gives_ask (statement : Statement) {same : List Row → List Row → Prop}
    (h : ∀ b, same (c.order b statement (t.answer statement)) (t.answer statement)) :
    Gives c t truth same (ask statement) (.ok (t.answer statement)) := by
  intro b hb
  have hsource : (b.elapse (c.delay b)).source = .tables t := hb.source
  change c.Allows same ((Backend.under c).ask statement b).1 _ ∧
    ((Backend.under c).ask statement b).2.Sound t truth
  simp only [Backend.under, Backend.ask, hsource, RowSource.answer]
  cases hfault : c.fault? (b.elapse (c.delay b)) statement with
  | some fault =>
    refine ⟨.failed fault fun hc => ?_, hb.lookups, hb.writes, hb.source, hb.kept⟩
    rw [hc.fault?] at hfault
    cases hfault
  | none => exact ⟨.agreed (.ok (h _)), hb.lookups, hb.writes, rfl, hb.kept⟩

theorem gives_ask_perm (statement : Statement) :
    Gives c t truth List.Perm (ask statement) (.ok (t.answer statement)) :=
  gives_ask statement fun _ => c.order_perm ..

theorem Gives.bind {same : α → α → Prop} {same' : β → β → Prop} {a : Analysis α}
    {f : α → Analysis β} {x : Except Fault α} {y : α → Except Fault β}
    (ha : Gives c t truth same a x)
    (hf : ∀ v w, x = .ok w → same v w → Gives c t truth same' (f v) (y w)) :
    Gives c t truth same' (a >>= f) (x >>= y) := by
  intro b hb
  obtain ⟨hallows, hsound⟩ := ha b hb
  rw [run_bind]
  generalize a.run.run (Backend.under c) b = r at hallows hsound
  rcases r with ⟨got, b'⟩
  cases hallows with
  | agreed h =>
    cases h with
    | error e => exact ⟨.agreed (.error e), hsound⟩
    | @ok v w h => exact hf v w rfl h b' hsound
  | failed e h => exact ⟨.failed e h, hsound⟩

theorem Gives.mono {same same' : α → α → Prop} {a : Analysis α} {x : Except Fault α}
    (ha : Gives c t truth same a x) (h : ∀ {v w}, same v w → same' v w) :
    Gives c t truth same' a x :=
  fun b hb => (ha b hb).imp_left fun hallows => hallows.mono h

theorem Gives.map {same : α → α → Prop} {same' : β → β → Prop} {a : Analysis α} {f : α → β}
    {x : Except Fault α} (ha : Gives c t truth same a x)
    (hf : ∀ v w, x = .ok w → same v w → same' (f v) (f w)) :
    Gives c t truth same' (f <$> a) (f <$> x) := by
  rw [← bind_pure_comp, ← bind_pure_comp]
  refine ha.bind fun v w hw h => ?_
  exact fun b hb => ⟨.agreed (.ok (hf v w hw h)), hb⟩

theorem steady_pure (a : α) : Steady c t truth Eq (pure a) :=
  gives_ofExcept (.ok a)

theorem steady_throw (e : Fault) : Steady c t truth Eq (throw e : Analysis α) :=
  gives_ofExcept (.error e)

theorem steady_lift (outcome : Except Fault α) :
    Steady c t truth Eq (liftM outcome : Analysis α) :=
  gives_ofExcept outcome

theorem Steady.bind {same : β → β → Prop} {a : Analysis α} {f : α → Analysis β}
    (ha : Steady c t truth Eq a) (hf : ∀ x, plain t a = .ok x → Steady c t truth same (f x)) :
    Steady c t truth same (a >>= f) := by
  rw [Steady, plain_bind]
  exact Gives.bind ha fun v w hw h => h ▸ hf w hw

theorem Steady.mono {same same' : α → α → Prop} {a : Analysis α} (ha : Steady c t truth same a)
    (h : ∀ {v w}, same v w → same' v w) : Steady c t truth same' a :=
  Gives.mono ha h

theorem Steady.map {same : α → α → Prop} {same' : β → β → Prop} {a : Analysis α} {f : α → β}
    (ha : Steady c t truth same a) (hf : ∀ {v w}, same v w → same' (f v) (f w)) :
    Steady c t truth same' (f <$> a) := by
  rw [Steady, plain_map]
  exact Gives.map ha fun _ _ _ => hf

theorem Steady.mapM {f : α → Analysis β} (hf : ∀ a, Steady c t truth Eq (f a)) :
    ∀ items : List α, Steady c t truth Eq (items.mapM f)
  | [] => steady_pure []
  | a :: items => by
    rw [List.mapM_cons]
    exact (hf a).bind fun b _ => (Steady.mapM hf items).bind fun bs _ => steady_pure (b :: bs)

/-- What is made of a statement's rows. -/
theorem steady_ask {statement : Statement} {f : List Row → α} {same : α → α → Prop}
    (h : ∀ b, same (f (c.order b statement (t.answer statement))) (f (t.answer statement))) :
    Steady c t truth same (f <$> ask statement) := by
  have hask : Gives c t truth (fun rows answer => same (f rows) (f answer)) (ask statement)
      (.ok (t.answer statement)) := gives_ask statement h
  rw [Steady, plain_map]
  exact hask.map fun _ _ _ hsame => hsame

/-- A value made of a statement's rows in whatever order they come. -/
theorem steady_asked {statement : Statement} {decode : List Row → Except Fault α}
    (h : ∀ rows, rows.Perm (t.answer statement) → decode rows = decode (t.answer statement)) :
    Steady c t truth Eq (ask statement >>= fun rows => (liftM (decode rows) : Analysis α)) := by
  rw [Steady, plain_bind]
  refine (gives_ask_perm statement).bind fun rows answer hanswer hperm => ?_
  obtain rfl : t.answer statement = answer := Except.ok.inj hanswer
  rw [h rows hperm]
  exact gives_ofExcept _

end Analysis

end Bourse
