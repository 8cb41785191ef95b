import Mathlib.Data.List.Basic
import Bourse.Program.Concurrent

/-!
# Programs step by step

A step of a program is one call to its surroundings (`advance`), and a run of several programs takes
steps of any of them in any order, with time passing in between (`Crew.run`). Turns are made of
steps, so rounds of turns are among the runs (`exists_run_eq_rounds`).
-/

namespace Bourse

variable {α β : Type}

namespace Program

/-- One step of the program at place `owner`: what is left of it, and the backend after it. A
program that has to wait for a lock is left as it was, with a handle on the lock. -/
def advance (owner : ℕ) : Program α → Backend → Program α × Backend
  | .done a, b => (.done a, b)
  | .lookup key next, b => (next (b.lookup key).1, (b.lookup key).2)
  | .store key text ttl next, b => (next (b.store key text ttl).1, (b.store key text ttl).2)
  | .ask statement next, b => (next (b.ask statement).1, (b.ask statement).2)
  | .enter key next, b =>
    let b := if (b.inFlight.handle? owner key).isSome then b else b.enter owner key
    if b.inFlight.holds owner key then (next, b) else (.enter key next, b)
  | .leave key next, b => (next, b.leave owner key)
  | .compute next, b => (next, b.note .computed)

theorem eq_done_of_result? {p : Program α} {a : α} (h : p.result? = some a) : p = .done a := by
  cases p <;> cases h
  rfl

/-- The first part of a sequence goes on until it is done. -/
theorem advance_bind (owner : ℕ) {p : Program α} (hp : p.result? = none)
    (f : α → Program β) (b : Backend) :
    (p.bind f).advance owner b = ((p.advance owner b).1.bind f, (p.advance owner b).2) := by
  cases p with
  | done a => cases hp
  | enter key next =>
    simp only [Program.bind, advance]
    split_ifs <;> rfl
  | _ => rfl

/-- No step of the program is about the key, whatever it is replied. -/
def Avoids (key : String) : Program α → Prop
  | .done _ => True
  | .lookup k next => k ≠ key ∧ ∀ reply, (next reply).Avoids key
  | .store k _ _ next => k ≠ key ∧ ∀ reply, (next reply).Avoids key
  | .ask _ next => ∀ reply, (next reply).Avoids key
  | .enter k next => k ≠ key ∧ next.Avoids key
  | .leave k next => k ≠ key ∧ next.Avoids key
  | .compute next => next.Avoids key

/-- Every key that a step of the program is about has the property, whatever it is replied. -/
def Uses (P : String → Prop) : Program α → Prop
  | .done _ => True
  | .lookup k next => P k ∧ ∀ reply, (next reply).Uses P
  | .store k _ _ next => P k ∧ ∀ reply, (next reply).Uses P
  | .ask _ next => ∀ reply, (next reply).Uses P
  | .enter k next => P k ∧ next.Uses P
  | .leave k next => P k ∧ next.Uses P
  | .compute next => next.Uses P

/-- Every result of the program has the property, whatever it is replied. -/
def Ends (P : α → Prop) : Program α → Prop
  | .done a => P a
  | .lookup _ next => ∀ reply, (next reply).Ends P
  | .store _ _ _ next => ∀ reply, (next reply).Ends P
  | .ask _ next => ∀ reply, (next reply).Ends P
  | .enter _ next => next.Ends P
  | .leave _ next => next.Ends P
  | .compute next => next.Ends P

theorem Avoids.advance {key : String} {p : Program α} (h : p.Avoids key) (owner : ℕ) (b : Backend) :
    (p.advance owner b).1.Avoids key := by
  cases p with
  | done a => trivial
  | lookup k next => exact h.2 _
  | store k text ttl next => exact h.2 _
  | ask statement next => exact h _
  | enter k next =>
    simp only [Program.advance]
    split_ifs
    · exact h.2
    · exact h
    · exact h.2
    · exact h
  | leave k next => exact h.2
  | compute next => exact h

/-- A program avoids every key that is not of the kind it uses. -/
theorem Uses.avoids {P : String → Prop} {p : Program α} (hp : p.Uses P) {key : String}
    (hkey : ¬P key) : p.Avoids key := by
  have hne : ∀ {k}, P k → k ≠ key := by
    rintro k hk rfl
    exact hkey hk
  induction p with
  | done a => trivial
  | lookup k next ih => exact ⟨hne hp.1, fun reply => ih reply (hp.2 reply)⟩
  | store k text ttl next ih => exact ⟨hne hp.1, fun reply => ih reply (hp.2 reply)⟩
  | ask statement next ih => exact fun reply => ih reply (hp reply)
  | enter k next ih => exact ⟨hne hp.1, ih hp.2⟩
  | leave k next ih => exact ⟨hne hp.1, ih hp.2⟩
  | compute next ih => exact ih hp

/-- A program that avoids a key of the kind it uses uses only the others. -/
theorem Uses.of_avoids {P : String → Prop} {key : String} {p : Program α} (hp : p.Uses P)
    (hkey : p.Avoids key) : p.Uses fun k => P k ∧ k ≠ key := by
  induction p with
  | done a => trivial
  | lookup k next ih => exact ⟨⟨hp.1, hkey.1⟩, fun reply => ih reply (hp.2 reply) (hkey.2 reply)⟩
  | store k text ttl next ih =>
    exact ⟨⟨hp.1, hkey.1⟩, fun reply => ih reply (hp.2 reply) (hkey.2 reply)⟩
  | ask statement next ih => exact fun reply => ih reply (hp reply) (hkey reply)
  | enter k next ih => exact ⟨⟨hp.1, hkey.1⟩, ih hp.2 hkey.2⟩
  | leave k next ih => exact ⟨⟨hp.1, hkey.1⟩, ih hp.2 hkey.2⟩
  | compute next ih => exact ih hp hkey

theorem Ends.advance {P : α → Prop} {p : Program α} (h : p.Ends P) (owner : ℕ) (b : Backend) :
    (p.advance owner b).1.Ends P := by
  cases p with
  | done a => exact h
  | lookup k next => exact h _
  | store k text ttl next => exact h _
  | ask statement next => exact h _
  | enter k next =>
    simp only [Program.advance]
    split_ifs <;> exact h
  | leave k next => exact h
  | compute next => exact h

/-- Time does not pass during a step. -/
theorem now_advance (owner : ℕ) (p : Program α) (b : Backend) :
    (p.advance owner b).2.now = b.now := by
  cases p with
  | lookup key next =>
    rw [advance, Backend.lookup]
    split <;> rfl
  | store key text ttl next =>
    rw [advance, Backend.store]
    split <;> rfl
  | enter key next =>
    simp only [advance]
    split_ifs <;> rfl
  | _ => rfl

end Program

/-- Programs on one backend. -/
structure Crew (α : Type) where
  programs : List (Program α)
  backend : Backend

/-- What happens next: the program at some place takes a step, or some time passes. -/
inductive Move where
  | step (owner : ℕ)
  | wait (milliseconds : ℕ)

/-- The time that passes during some moves. -/
def Move.elapsed : List Move → ℕ
  | [] => 0
  | .step _ :: moves => Move.elapsed moves
  | .wait milliseconds :: moves => milliseconds + Move.elapsed moves

theorem Move.elapsed_append : ∀ moves more : List Move,
    Move.elapsed (moves ++ more) = Move.elapsed moves + Move.elapsed more
  | [], more => (Nat.zero_add _).symm
  | .step _ :: moves, more => Move.elapsed_append moves more
  | .wait milliseconds :: moves, more => by
    rw [List.cons_append, Move.elapsed, Move.elapsed, Move.elapsed_append moves more, Nat.add_assoc]

namespace Backend

/-- The backend some time later. -/
def elapse (milliseconds : ℕ) (b : Backend) : Backend :=
  { b with now := b.now + milliseconds }

theorem inFlight_lookup (b : Backend) (key : String) : (b.lookup key).2.inFlight = b.inFlight := by
  unfold lookup
  split <;> rfl

theorem writes_lookup (b : Backend) (key : String) : (b.lookup key).2.writes = b.writes := by
  unfold lookup
  split <;> rfl

theorem inFlight_store (b : Backend) (key text : String) (ttl : Option ℕ) :
    (b.store key text ttl).2.inFlight = b.inFlight := by
  unfold store
  split <;> rfl

end Backend

namespace Crew

def move (c : Crew α) : Move → Crew α
  | .step owner =>
    match c.programs[owner]? with
    | some p =>
      ⟨c.programs.set owner (p.advance owner c.backend).1, (p.advance owner c.backend).2⟩
    | none => c
  | .wait milliseconds => { c with backend := c.backend.elapse milliseconds }

/-- The result of the program at place `i`, when it is done. -/
def answer? (c : Crew α) (i : ℕ) : Option α :=
  c.programs[i]?.bind Program.result?

def run (c : Crew α) (moves : List Move) : Crew α :=
  moves.foldl move c

theorem run_append (c : Crew α) (moves more : List Move) :
    c.run (moves ++ more) = (c.run moves).run more :=
  List.foldl_append

theorem now_run (c : Crew α) (moves : List Move) :
    (c.run moves).backend.now = c.backend.now + Move.elapsed moves := by
  induction moves generalizing c with
  | nil => rfl
  | cons m moves ih =>
    refine (ih (c.move m)).trans ?_
    cases m with
    | step owner =>
      rw [Move.elapsed, move]
      split
      · rw [Program.now_advance]
      · rfl
    | wait milliseconds => exact Nat.add_assoc _ _ _

theorem move_step_append (before after : List (Program α)) (p : Program α) (b : Backend) :
    (⟨before ++ p :: after, b⟩ : Crew α).move (.step before.length)
      = ⟨before ++ (p.advance before.length b).1 :: after, (p.advance before.length b).2⟩ := by
  simp only [move, List.getElem?_append_right (Nat.le_refl _), Nat.sub_self,
    List.getElem?_cons_zero, List.set_append_right _ _ (Nat.le_refl _), List.set_cons_zero]

/-- A turn is a run of steps of the program whose turn it is. -/
theorem exists_run_eq_turn (before after : List (Program α)) :
    ∀ (p : Program α) (b : Backend), ∃ moves,
      (⟨before ++ p :: after, b⟩ : Crew α).run moves
        = ⟨before ++ (p.turn before.length b).1 :: after, (p.turn before.length b).2⟩ := by
  have hstep : ∀ (p : Program α) (b : Backend) {r : Program α × Backend}, (∃ moves,
      (⟨before ++ (p.advance before.length b).1 :: after,
        (p.advance before.length b).2⟩ : Crew α).run moves = ⟨before ++ r.1 :: after, r.2⟩) →
      ∃ moves, (⟨before ++ p :: after, b⟩ : Crew α).run moves = ⟨before ++ r.1 :: after, r.2⟩ := by
    rintro p b r ⟨moves, hmoves⟩
    refine ⟨.step before.length :: moves, ?_⟩
    rw [← hmoves, ← move_step_append]
    rfl
  intro p
  induction p with
  | done a => exact fun b => ⟨[], rfl⟩
  | lookup key next ih => exact fun b => hstep _ b (ih _ _)
  | store key text ttl next ih => exact fun b => hstep _ b (ih _ _)
  | ask statement next ih => exact fun b => hstep _ b (ih _ _)
  | enter key next ih =>
    intro b
    refine hstep _ b ?_
    simp only [Program.advance, Program.turn]
    split_ifs
    · exact ih _
    · exact ⟨[], rfl⟩
    · exact ih _
    · exact ⟨[], rfl⟩
  | leave key next ih => exact fun b => hstep _ b (ih _)
  | compute next ih => exact fun b => hstep _ b ⟨[], rfl⟩

theorem exists_run_eq_round : ∀ (before programs : List (Program α)) (b : Backend), ∃ moves,
    (⟨before ++ programs, b⟩ : Crew α).run moves
      = ⟨before ++ (Program.round before.length programs b).1,
          (Program.round before.length programs b).2⟩
  | before, [], b => ⟨[], rfl⟩
  | before, p :: programs, b => by
    obtain ⟨first, hfirst⟩ := exists_run_eq_turn before programs p b
    obtain ⟨rest, hrest⟩ := exists_run_eq_round (before ++ [(p.turn before.length b).1]) programs
      (p.turn before.length b).2
    refine ⟨first ++ rest, ?_⟩
    rw [List.length_append, List.length_singleton, List.append_assoc, List.append_assoc] at hrest
    rw [run_append, hfirst]
    exact hrest

/-- Rounds of turns are one of the runs. -/
theorem exists_run_eq_rounds : ∀ (count : ℕ) (programs : List (Program α)) (b : Backend), ∃ moves,
    (⟨programs, b⟩ : Crew α).run moves
      = ⟨(Program.rounds count programs b).1, (Program.rounds count programs b).2⟩
  | 0, programs, b => ⟨[], rfl⟩
  | count + 1, programs, b => by
    obtain ⟨first, hfirst⟩ := exists_run_eq_round [] programs b
    obtain ⟨rest, hrest⟩ := exists_run_eq_rounds count (Program.round 0 programs b).1
      (Program.round 0 programs b).2
    refine ⟨first ++ rest, ?_⟩
    rw [run_append]
    exact (congrArg (run · rest) hfirst).trans hrest

end Crew

end Bourse
