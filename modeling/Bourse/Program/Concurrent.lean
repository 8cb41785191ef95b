import Bourse.Backend

/-!
# Programs side by side

Several programs take turns on one backend. A turn goes on until the program is done, begins a
computation of its own, or has to wait for a lock. In a round every program has one turn, in the
order of their places.
-/

namespace Bourse

variable {α : Type}

/-- The turn of the program at place `owner`: what is left of it, and the backend after it. -/
def Program.turn (owner : Nat) : Program α → Backend → Program α × Backend
  | .done a, b => (.done a, b)
  | .lookup key next, b =>
    let (reply, b) := b.lookup key
    (next reply).turn owner b
  | .store key text ttl next, b =>
    let (reply, b) := b.store key text ttl
    (next reply).turn owner b
  | .ask statement next, b =>
    let (reply, b) := b.ask statement
    (next reply).turn owner b
  | .enter key next, b =>
    let b := if (b.inFlight.handle? owner key).isSome then b else b.enter owner key
    if b.inFlight.holds owner key then next.turn owner b else (.enter key next, b)
  | .leave key next, b => next.turn owner (b.leave owner key)
  | .compute next, b => (next, b.note .computed)

/-- One turn for every program, the first of them at place `owner`. -/
def Program.round (owner : Nat) : List (Program α) → Backend → List (Program α) × Backend
  | [], b => ([], b)
  | p :: rest, b =>
    let (p, b) := p.turn owner b
    let (rest, b) := Program.round (owner + 1) rest b
    (p :: rest, b)

def Program.rounds : Nat → List (Program α) → Backend → List (Program α) × Backend
  | 0, programs, b => (programs, b)
  | count + 1, programs, b =>
    let (programs, b) := Program.round 0 programs b
    Program.rounds count programs b

def Program.result? : Program α → Option α
  | .done a => some a
  | _ => none

end Bourse
