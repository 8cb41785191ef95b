import Bourse.Cache.Key
import Bourse.Json.Payload
import Bourse.Program

/-!
# The cache gateway

The gateway keeps values in the cache as JSON texts. A lookup that stalls is given up after a while,
and a text that no longer decodes counts as absent. What is not in the cache is computed and stored;
a computation that fails stores nothing. When several requests miss a key at once, either each of
them computes, or one computes while the others wait and then look again.
-/

namespace Bourse

inductive CacheStrategy where
  /-- Every miss computes and stores. -/
  | aside
  /-- Misses of one key take turns, and look the key up again when theirs comes. -/
  | singleFlight
deriving DecidableEq, Repr

structure Gateway where
  strategy : CacheStrategy
  /-- Time to live in seconds of what is stored without one of its own; none for ever. -/
  defaultTtl : Option Nat
  /-- After how many milliseconds a stalled cache is given up. -/
  timeout : Nat
deriving DecidableEq

/-- The outcome of an operation that is given up after some time. -/
def Reply.within {β : Type} (operation : String) (milliseconds : Nat) : Reply β → Except Fault β
  | .answered b => .ok b
  | .refused fault => .error fault
  | .stalled => .error (.timeout operation milliseconds)

namespace Gateway

variable {α : Type} [Payload α]

def standardTtl : Nat := 1800

def standardTimeout : Nat := 2000

/-- The cached value of a key. -/
def get (g : Gateway) (key : String) : Analysis (Option α) := do
  let reply ← Analysis.lookup key
  let text ← reply.within "cache get" g.timeout
  return text.bind Payload.read

def set (g : Gateway) (key : String) (value : α) (ttl : Option Nat) : Analysis Unit := do
  let reply ← Analysis.store key (Payload.write value) ttl
  reply.within "cache set" g.timeout

def computeAndStore (g : Gateway) (key : String) (ttl : Option Nat) (computation : Analysis α) :
    Analysis α := do
  let value ← computation
  g.set key value ttl
  return value

/-- The value of a key from the cache, or else from the computation, whose value is then stored. -/
def fetch (g : Gateway) (key : String) (ttl : Option Nat) (computation : Analysis α) :
    Analysis α := do
  match ← g.get key with
  | some hit => return hit
  | none => g.computeAndStore key ttl computation

/-- As `fetch`, but one request at a time: the key is looked up before and after the lock is taken,
and the lock is given back whatever comes of it. -/
def fetchInTurn (g : Gateway) (key : String) (ttl : Option Nat) (computation : Analysis α) :
    Analysis α := do
  match ← g.get key with
  | some hit => return hit
  | none =>
    Analysis.enter key
    let outcome ← Analysis.attempt (g.fetch key ttl computation)
    Analysis.leave key
    outcome

def getOrComputeFor (g : Gateway) (key : String) (ttl : Option Nat) (computation : Analysis α) :
    Analysis α :=
  match g.strategy with
  | .aside => g.fetch key ttl computation
  | .singleFlight => g.fetchInTurn key ttl computation

def getOrCompute (g : Gateway) (key : String) (computation : Analysis α) : Analysis α :=
  g.getOrComputeFor key g.defaultTtl computation

end Gateway

end Bourse
