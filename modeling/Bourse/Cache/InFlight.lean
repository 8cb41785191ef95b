/-!
# Requests in flight

The locks of the keys that are being computed. The table names the current lock of a key; a request
that needs the lock takes a handle on it, and the handles of one lock are served in the order of
their arrival, so the first one holds it. When the last handle goes, the table forgets the lock.
-/

namespace Bourse

/-- A request's place in the queue of a lock. -/
structure Handle where
  key : String
  lock : Nat
  owner : Nat
deriving DecidableEq

structure InFlight where
  /-- The current lock of each key in the table. -/
  locks : List (String × Nat)
  /-- All handles, in the order of arrival. -/
  handles : List Handle
  /-- The number of the next new lock. -/
  fresh : Nat

namespace InFlight

def empty : InFlight := ⟨[], [], 0⟩

def handle? (s : InFlight) (owner : Nat) (key : String) : Option Handle :=
  s.handles.find? fun h => h.owner == owner && h.key == key

/-- Takes a handle on the key's lock, which is a new one when the table has none. -/
def join (s : InFlight) (owner : Nat) (key : String) : InFlight :=
  match s.locks.lookup key with
  | some lock => { s with handles := s.handles ++ [⟨key, lock, owner⟩] }
  | none =>
    { locks := (key, s.fresh) :: s.locks
      handles := s.handles ++ [⟨key, s.fresh, owner⟩]
      fresh := s.fresh + 1 }

/-- Whether the owner's handle is the first on its lock. -/
def holds (s : InFlight) (owner : Nat) (key : String) : Bool :=
  match s.handle? owner key with
  | some h => (s.handles.find? (·.lock == h.lock)) == some h
  | none => false

/-- Gives the handle back. The table forgets the lock if it still names it and no handle is left. -/
def leave (s : InFlight) (owner : Nat) (key : String) : InFlight :=
  match s.handle? owner key with
  | some h =>
    let rest := s.handles.erase h
    let locks :=
      if s.locks.lookup key == some h.lock && !rest.any (·.lock == h.lock) then
        s.locks.filter (·.1 != key)
      else s.locks
    { s with locks := locks, handles := rest }
  | none => s

end InFlight

end Bourse
