import Bourse.Cache.InFlight
import Bourse.Cache.Store
import Bourse.Program
import Bourse.Tables

/-!
# Backends

What programs run against: a cache store in some state of health, and a source of rows, which is the
market's tables or a list of prepared answers. A failing or stalled cache is left as it was. Every
lookup, write, statement and computation leaves an event in the log.
-/

namespace Bourse

inductive Health where
  | healthy
  | failing
  | stalled
deriving DecidableEq, Repr

/-- Where rows come from. Prepared answers are given one by one; after the last there are none. -/
inductive RowSource where
  | tables (t : Tables)
  | prepared (answers : List (Except Fault (List Row)))

namespace RowSource

def answer (statement : Statement) : RowSource → Except Fault (List Row) × RowSource
  | tables t => (.ok (t.answer statement), tables t)
  | prepared [] => (.ok [], prepared [])
  | prepared (reply :: rest) => (reply, prepared rest)

end RowSource

inductive Event where
  | found (key : String)
  | missed (key : String)
  | lookupRefused (key : String)
  | lookupStalled (key : String)
  | stored (key text : String) (ttl : Option Nat)
  | writeRefused (key : String)
  | writeStalled (key : String)
  | asked (statement : Statement)
  | computed

structure Backend where
  /-- The present instant, in milliseconds. -/
  now : Nat
  cache : CacheStore
  lookups : Health
  writes : Health
  inFlight : InFlight
  source : RowSource
  /-- What happened, the latest first. -/
  log : List Event

namespace Backend

/-- A healthy backend with an empty cache. -/
def fresh (source : RowSource) : Backend where
  now := 0
  cache := .empty CacheStore.defaultPurgeEvery
  lookups := .healthy
  writes := .healthy
  inFlight := .empty
  source := source
  log := []

def note (event : Event) (b : Backend) : Backend :=
  { b with log := event :: b.log }

def lookup (key : String) (b : Backend) : Reply (Option String) × Backend :=
  match b.lookups with
  | .failing => (.refused (.cache "get refused"), b.note (.lookupRefused key))
  | .stalled => (.stalled, b.note (.lookupStalled key))
  | .healthy =>
    let (text, cache) := b.cache.get b.now key
    let event := if text.isSome then Event.found key else Event.missed key
    (.answered text, { b with cache := cache }.note event)

def store (key text : String) (ttl : Option Nat) (b : Backend) : Reply Unit × Backend :=
  match b.writes with
  | .failing => (.refused (.cache "set refused"), b.note (.writeRefused key))
  | .stalled => (.stalled, b.note (.writeStalled key))
  | .healthy =>
    (.answered (), { b with cache := b.cache.set b.now key text ttl }.note (.stored key text ttl))

def ask (statement : Statement) (b : Backend) : Except Fault (List Row) × Backend :=
  let (reply, source) := b.source.answer statement
  (reply, { b with source := source }.note (.asked statement))

def enter (owner : Nat) (key : String) (b : Backend) : Backend :=
  { b with inFlight := b.inFlight.join owner key }

def leave (owner : Nat) (key : String) (b : Backend) : Backend :=
  { b with inFlight := b.inFlight.leave owner key }

/-- The backend as one request alone finds it. -/
def services : Services Backend where
  lookup := lookup
  store := store
  ask := ask
  enter := enter 0
  leave := leave 0
  compute := note .computed

end Backend

end Bourse
