/-!
# The in-process store

A map from keys to texts whose entries may expire. An expired entry is never answered; it is dropped
when it is looked up, and all expired entries are dropped after every so many writes. Instants are
counted in milliseconds and times to live in seconds; an entry without one never expires.
-/

namespace Bourse

structure CacheEntry where
  text : String
  writtenAt : Nat
  ttl : Option Nat
deriving DecidableEq

def CacheEntry.isExpired (now : Nat) (e : CacheEntry) : Bool :=
  e.ttl.any fun ttl => e.writtenAt + 1000 * ttl ≤ now

structure CacheStore where
  /-- Entries by key, each key once. -/
  entries : List (String × CacheEntry)
  /-- After how many writes the expired entries are dropped. -/
  purgeEvery : Nat
  writes : Nat

namespace CacheStore

def defaultPurgeEvery : Nat := 256

/-- A store without entries. At the least every write is followed by a sweep. -/
def empty (purgeEvery : Nat) : CacheStore :=
  ⟨[], max purgeEvery 1, 0⟩

def size (s : CacheStore) : Nat :=
  s.entries.length

/-- The live text of a key. -/
def find? (now : Nat) (key : String) (s : CacheStore) : Option String :=
  match s.entries.lookup key with
  | some entry => if entry.isExpired now then none else some entry.text
  | none => none

/-- Looks a key up, and drops its entry when it has expired. -/
def get (now : Nat) (key : String) (s : CacheStore) : Option String × CacheStore :=
  match s.entries.lookup key with
  | some entry =>
    if entry.isExpired now then (none, { s with entries := s.entries.filter (·.1 != key) })
    else (some entry.text, s)
  | none => (none, s)

/-- Drops every expired entry. -/
def sweep (now : Nat) (s : CacheStore) : CacheStore :=
  { s with entries := s.entries.filter fun e => !e.2.isExpired now }

/-- How many entries a sweep drops, and the store after it. -/
def cleanup (now : Nat) (s : CacheStore) : Nat × CacheStore :=
  (s.size - (s.sweep now).size, s.sweep now)

def insert (key : String) (entry : CacheEntry) (s : CacheStore) : CacheStore :=
  { s with
    entries := (key, entry) :: s.entries.filter (·.1 != key)
    writes := s.writes + 1 }

/-- Writes an entry, then sweeps when the count of writes asks for it. -/
def set (now : Nat) (key text : String) (ttl : Option Nat) (s : CacheStore) : CacheStore :=
  let written := s.insert key ⟨text, now, ttl⟩
  if written.writes % written.purgeEvery = 0 then written.sweep now else written

theorem lookup_filter_ne (entries : List (String × CacheEntry)) {key other : String}
    (h : other ≠ key) : (entries.filter (·.1 != key)).lookup other = entries.lookup other := by
  induction entries with
  | nil => rfl
  | cons e rest ih =>
    by_cases he : e.1 = key
    · rw [List.filter_cons_of_neg (by simp [he]), ih, List.lookup_cons]
      split <;> simp_all
    · rw [List.filter_cons_of_pos (by simp [he]), List.lookup_cons, List.lookup_cons, ih]

theorem find?_insert (now : Nat) (key other : String) (entry : CacheEntry) (s : CacheStore) :
    (s.insert key entry).find? now other
      = if other = key then (if entry.isExpired now then none else some entry.text)
        else s.find? now other := by
  by_cases h : other = key
  · subst h
    simp [find?, insert]
  · have hb : (other == key) = false := by simp [h]
    simp only [find?, insert, List.lookup_cons, hb, lookup_filter_ne s.entries h, if_neg h]

theorem get_fst (now : Nat) (key : String) (s : CacheStore) :
    (s.get now key).1 = s.find? now key := by
  unfold get find?
  split
  · split <;> rfl
  · rfl

end CacheStore

end Bourse
