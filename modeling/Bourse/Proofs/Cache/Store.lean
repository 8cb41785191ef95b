import Mathlib.Data.List.Basic
import Bourse.Cache.Store

/-!
# What a store keeps

A store never makes up an entry: whatever holds of all its keys and texts still holds after a lookup
(`Everywhere.get`) and, when it holds of what is written, after a write (`Everywhere.set`). A key is
cold when none of its entries is alive (`Cold`), and it is warm up to some instant when it is found
until then (`Warm`); lookups and writes of other keys change neither. As each key has one entry
(`Keyed`), a lookup changes no text (`Keyed.find?_get`), and a write only that of its key
(`Keyed.find?_set`).
-/

namespace Bourse.CacheStore

/-- A property of every key with its text, of expired ones too. -/
def Everywhere (P : String → String → Prop) (s : CacheStore) : Prop :=
  ∀ e ∈ s.entries, P e.1 e.2.text

variable {P : String → String → Prop} {s : CacheStore}

/-- A lookup leaves the store as it was, unless it drops the key's entry, which has expired. -/
theorem get_cases (s : CacheStore) (now : ℕ) (key : String) :
    s.get now key = (s.find? now key, s) ∨
      ∃ entry, s.entries.lookup key = some entry ∧ entry.isExpired now ∧
        s.get now key = (none, { s with entries := s.entries.filter (·.1 != key) }) := by
  rw [← get_fst]
  unfold CacheStore.get
  split
  · next entry hentry =>
    split_ifs with hexpired
    · exact .inr ⟨entry, hentry, hexpired, rfl⟩
    · exact .inl rfl
  · exact .inl rfl

/-- A write inserts an entry, and there may be a sweep after it. -/
theorem set_cases (s : CacheStore) (now : ℕ) (key text : String) (ttl : Option ℕ) :
    s.set now key text ttl = s.insert key ⟨text, now, ttl⟩ ∨
      s.set now key text ttl = (s.insert key ⟨text, now, ttl⟩).sweep now := by
  simp only [CacheStore.set]
  split_ifs
  · exact .inr rfl
  · exact .inl rfl

theorem everywhere_empty (purgeEvery : ℕ) : (empty purgeEvery).Everywhere P :=
  fun _ he => absurd he List.not_mem_nil

theorem mem_of_lookup {key : String} {entry : CacheEntry} :
    ∀ {entries : List (String × CacheEntry)}, entries.lookup key = some entry →
      (key, entry) ∈ entries
  | [], h => by cases h
  | (k, e) :: rest, h => by
    rw [List.lookup_cons] at h
    split at h
    · next hk =>
      obtain rfl : key = k := eq_of_beq hk
      obtain rfl : e = entry := Option.some.inj h
      exact List.mem_cons_self
    · exact List.mem_cons_of_mem _ (mem_of_lookup h)

theorem Everywhere.find? (h : s.Everywhere P) {now : ℕ} {key text : String}
    (hf : s.find? now key = some text) : P key text := by
  unfold CacheStore.find? at hf
  split at hf
  · next entry hentry =>
    split_ifs at hf
    obtain rfl := Option.some.inj hf
    exact h _ (mem_of_lookup hentry)
  · cases hf

theorem Everywhere.filter (h : s.Everywhere P) (keep : String × CacheEntry → Bool) :
    Everywhere P { s with entries := s.entries.filter keep } :=
  fun e he => h e (List.mem_filter.1 he).1

theorem Everywhere.get (h : s.Everywhere P) (now : ℕ) (key : String) :
    (s.get now key).2.Everywhere P := by
  obtain hget | ⟨_, _, _, hget⟩ := s.get_cases now key <;> rw [hget]
  · exact h
  · exact h.filter _

theorem Everywhere.set (h : s.Everywhere P) {key text : String} (hp : P key text) (now : ℕ)
    (ttl : Option ℕ) : (s.set now key text ttl).Everywhere P := by
  have hinsert : (s.insert key ⟨text, now, ttl⟩).Everywhere P := by
    intro e he
    rcases List.mem_cons.1 he with rfl | he
    · exact hp
    · exact h e (List.mem_filter.1 he).1
  obtain hset | hset := s.set_cases now key text ttl <;> rw [hset]
  · exact hinsert
  · exact hinsert.filter _

theorem isExpired_mono {e : CacheEntry} {now later : ℕ} (h : e.isExpired now) (hle : now ≤ later) :
    e.isExpired later := by
  simp only [CacheEntry.isExpired, Option.any_eq_true, decide_eq_true_eq] at h ⊢
  obtain ⟨ttl, httl, h⟩ := h
  exact ⟨ttl, httl, Nat.le_trans h hle⟩

/-- No entry of the key is alive. -/
def Cold (now : ℕ) (key : String) (s : CacheStore) : Prop :=
  ∀ e ∈ s.entries, e.1 = key → e.2.isExpired now

/-- The key has an entry with the text that is alive at least up to `last`. -/
def Warm (last : ℕ) (key text : String) (s : CacheStore) : Prop :=
  ∃ entry, s.entries.lookup key = some entry ∧ entry.text = text ∧ ¬ entry.isExpired last

variable {key other text : String} {now last : ℕ}

theorem Cold.later (h : s.Cold now key) {later : ℕ} (hle : now ≤ later) : s.Cold later key :=
  fun e he hkey => isExpired_mono (h e he hkey) hle

theorem Cold.find? (h : s.Cold now key) : s.find? now key = none := by
  unfold CacheStore.find?
  split
  · next entry hentry => rw [if_pos (h _ (mem_of_lookup hentry) rfl)]
  · rfl

theorem Cold.get (h : s.Cold now key) (instant : ℕ) (other : String) :
    (s.get instant other).2.Cold now key := by
  obtain hget | ⟨_, _, _, hget⟩ := s.get_cases instant other <;> rw [hget]
  · exact h
  · exact fun e he => h e (List.mem_filter.1 he).1

theorem mem_of_mem_get {e : String × CacheEntry}
    (he : e ∈ (s.get now key).2.entries) : e ∈ s.entries := by
  obtain hget | ⟨_, _, _, hget⟩ := s.get_cases now key <;> rw [hget] at he
  · exact he
  · exact (List.mem_filter.1 he).1

theorem mem_of_mem_set {text : String} {ttl : Option ℕ} {e : String × CacheEntry}
    (he : e ∈ (s.set now key text ttl).entries) : e ∈ s.entries ∨ e.1 = key := by
  have hinsert : e ∈ (s.insert key ⟨text, now, ttl⟩).entries → e ∈ s.entries ∨ e.1 = key := by
    intro he
    rcases List.mem_cons.1 he with rfl | he
    · exact .inr rfl
    · exact .inl (List.mem_filter.1 he).1
  obtain hset | hset := s.set_cases now key text ttl <;> rw [hset] at he
  · exact hinsert he
  · exact hinsert (List.mem_filter.1 he).1

theorem writes_get (s : CacheStore) (now : ℕ) (key : String) :
    (s.get now key).2.writes = s.writes := by
  obtain hget | ⟨_, _, _, hget⟩ := s.get_cases now key <;> rw [hget]

theorem Cold.set (h : s.Cold now key) (hne : other ≠ key) (instant : ℕ) (text : String)
    (ttl : Option ℕ) : (s.set instant other text ttl).Cold now key := by
  have hinsert : (s.insert other ⟨text, instant, ttl⟩).Cold now key := by
    intro e he hkey
    rcases List.mem_cons.1 he with rfl | he
    · exact absurd hkey hne
    · exact h e (List.mem_filter.1 he).1 hkey
  obtain hset | hset := s.set_cases instant other text ttl <;> rw [hset]
  · exact hinsert
  · exact fun e he => hinsert e (List.mem_filter.1 he).1

theorem lookup_filter_keep {keep : String × CacheEntry → Bool} {entry : CacheEntry}
    (hkeep : keep (key, entry)) : ∀ {entries : List (String × CacheEntry)},
    entries.lookup key = some entry → (entries.filter keep).lookup key = some entry
  | [], h => h
  | e :: entries, h => by
    rw [List.lookup_cons] at h
    split at h
    · next hkey =>
      obtain rfl : e = (key, entry) := Prod.ext (eq_of_beq hkey).symm (Option.some.inj h)
      rw [List.filter_cons_of_pos hkeep, List.lookup_cons_self]
    · next hkey =>
      rw [List.filter_cons]
      split_ifs
      · rw [List.lookup_cons, hkey]
        exact lookup_filter_keep hkeep h
      · exact lookup_filter_keep hkeep h

theorem Warm.alive {entry : CacheEntry} (h : ¬ entry.isExpired last) (hle : now ≤ last) :
    ¬ entry.isExpired now :=
  fun hexpired => h (isExpired_mono hexpired hle)

theorem Warm.find? (h : s.Warm last key text) (hle : now ≤ last) : s.find? now key = some text := by
  obtain ⟨entry, hentry, rfl, halive⟩ := h
  simp only [CacheStore.find?, hentry, if_neg (Warm.alive halive hle)]

theorem Warm.get (h : s.Warm last key text) (hle : now ≤ last) (other : String) :
    (s.get now other).2.Warm last key text := by
  obtain ⟨entry, hentry, htext, halive⟩ := h
  obtain hget | ⟨found, hfound, hexpired, hget⟩ := s.get_cases now other <;> rw [hget]
  · exact ⟨entry, hentry, htext, halive⟩
  · have hne : key ≠ other := by
      rintro rfl
      obtain rfl := Option.some.inj (hentry.symm.trans hfound)
      exact Warm.alive halive hle hexpired
    exact ⟨entry, (lookup_filter_ne s.entries hne).trans hentry, htext, halive⟩

theorem Warm.sweep (h : s.Warm last key text) (hle : now ≤ last) :
    (s.sweep now).Warm last key text := by
  obtain ⟨entry, hentry, htext, halive⟩ := h
  refine ⟨entry, lookup_filter_keep ?_ hentry, htext, halive⟩
  simpa using Warm.alive halive hle

theorem Warm.set (h : s.Warm last key text) (hle : now ≤ last) (hne : other ≠ key) (text' : String)
    (ttl : Option ℕ) : (s.set now other text' ttl).Warm last key text := by
  have hinsert : (s.insert other ⟨text', now, ttl⟩).Warm last key text := by
    obtain ⟨entry, hentry, htext, halive⟩ := h
    refine ⟨entry, ?_, htext, halive⟩
    rw [CacheStore.insert, List.lookup_cons, beq_false_of_ne hne.symm,
      lookup_filter_ne s.entries hne.symm, hentry]
  obtain hset | hset := s.set_cases now other text' ttl <;> rw [hset]
  · exact hinsert
  · exact hinsert.sweep hle

/-- A key is warm after a write with a time to live that lasts long enough. -/
theorem warm_set (s : CacheStore) (key text : String) {ttl : Option ℕ} (hle : now ≤ last)
    (httl : ∀ seconds, ttl = some seconds → last < now + 1000 * seconds) :
    (s.set now key text ttl).Warm last key text := by
  have hinsert : (s.insert key ⟨text, now, ttl⟩).Warm last key text := by
    refine ⟨⟨text, now, ttl⟩, List.lookup_cons_self, rfl, ?_⟩
    simp only [CacheEntry.isExpired, Option.any_eq_true, decide_eq_true_eq, not_exists, not_and,
      Nat.not_le]
    exact httl
  obtain hset | hset := s.set_cases now key text ttl <;> rw [hset]
  · exact hinsert
  · exact hinsert.sweep hle

/-- Each key has at most one entry. -/
def Keyed (s : CacheStore) : Prop :=
  (s.entries.map Prod.fst).Nodup

theorem keyed_empty (purgeEvery : ℕ) : (empty purgeEvery).Keyed :=
  List.nodup_nil

theorem Keyed.filter (h : s.Keyed) (keep : String × CacheEntry → Bool) :
    Keyed { s with entries := s.entries.filter keep } :=
  h.sublist (List.filter_sublist.map _)

theorem Keyed.get (h : s.Keyed) (now : ℕ) (key : String) : (s.get now key).2.Keyed := by
  obtain hget | ⟨_, _, _, hget⟩ := s.get_cases now key <;> rw [hget]
  · exact h
  · exact h.filter _

theorem Keyed.insert (h : s.Keyed) (key : String) (entry : CacheEntry) :
    (s.insert key entry).Keyed := by
  have hfresh : key ∉ (s.entries.filter (·.1 != key)).map Prod.fst := by
    intro hmem
    obtain ⟨e, he, rfl⟩ := List.mem_map.1 hmem
    simpa using (List.mem_filter.1 he).2
  exact List.nodup_cons.2 ⟨hfresh, h.filter _⟩

theorem Keyed.set (h : s.Keyed) (now : ℕ) (key text : String) (ttl : Option ℕ) :
    (s.set now key text ttl).Keyed := by
  obtain hset | hset := s.set_cases now key text ttl <;> rw [hset]
  · exact h.insert _ _
  · exact (h.insert _ _).filter _

theorem lookup_filter_of_nodup (keep : String × CacheEntry → Bool) :
    ∀ {entries : List (String × CacheEntry)}, (entries.map Prod.fst).Nodup →
      (entries.filter keep).lookup key = (entries.lookup key).filter fun e => keep (key, e)
  | [], _ => rfl
  | (k, e) :: entries, h => by
    obtain ⟨hfresh, h⟩ := List.nodup_cons.1 h
    have ih := lookup_filter_of_nodup keep h
    by_cases hkey : key = k
    · subst hkey
      have hnone : entries.lookup key = none := List.lookup_eq_none_iff.2 fun e' he' =>
        bne_iff_ne.2 (ne_of_mem_of_not_mem (List.mem_map_of_mem he') hfresh).symm
      rw [List.lookup_cons_self, Option.filter_some, List.filter_cons]
      split_ifs
      · rw [List.lookup_cons_self]
      · rw [ih, hnone]
        rfl
    · rw [List.lookup_cons, beq_false_of_ne hkey, List.filter_cons]
      split_ifs
      · rw [List.lookup_cons, beq_false_of_ne hkey]
        exact ih
      · exact ih

/-- Dropping expired entries changes no text. -/
theorem Keyed.find?_filter (h : s.Keyed) {keep : String × CacheEntry → Bool}
    (hkeep : ∀ e, s.entries.lookup key = some e → keep (key, e) ∨ e.isExpired now) :
    find? now key { s with entries := s.entries.filter keep } = s.find? now key := by
  simp only [CacheStore.find?, lookup_filter_of_nodup keep h]
  cases hentry : s.entries.lookup key with
  | none => rfl
  | some entry =>
    rw [Option.filter_some]
    split_ifs with hkept
    · rfl
    · exact (if_pos ((hkeep entry hentry).resolve_left hkept)).symm

variable {later : ℕ}

theorem Keyed.find?_get (h : s.Keyed) (hle : now ≤ later) (key other : String) :
    (s.get now other).2.find? later key = s.find? later key := by
  obtain hget | ⟨entry, hentry, hexpired, hget⟩ := s.get_cases now other <;> rw [hget]
  refine h.find?_filter fun e he => ?_
  by_cases hkey : key = other
  · subst hkey
    obtain rfl := Option.some.inj (hentry.symm.trans he)
    exact .inr (isExpired_mono hexpired hle)
  · exact .inl (by simpa using hkey)

theorem Keyed.find?_sweep (h : s.Keyed) (hle : now ≤ later) (key : String) :
    (s.sweep now).find? later key = s.find? later key := by
  refine h.find?_filter fun e _ => ?_
  by_cases hexpired : e.isExpired now
  · exact .inr (isExpired_mono hexpired hle)
  · exact .inl (by simpa using hexpired)

/-- A write settles the text of its key, and that of no other. -/
theorem Keyed.find?_set (h : s.Keyed) (hle : now ≤ later) (key other text : String)
    (ttl : Option ℕ) :
    (s.set now other text ttl).find? later key
      = if key = other then
          (if (CacheEntry.mk text now ttl).isExpired later then none else some text)
        else s.find? later key := by
  rw [← find?_insert]
  obtain hset | hset := s.set_cases now other text ttl <;> rw [hset]
  exact (h.insert _ _).find?_sweep hle key

/-- A lookup that follows another one at once changes nothing more. -/
theorem get_get (s : CacheStore) (now : ℕ) (key : String) :
    (s.get now key).2.get now key = s.get now key := by
  obtain hget | ⟨_, _, _, hget⟩ := s.get_cases now key <;> rw [hget]
  · exact hget
  · have hnone : (s.entries.filter (·.1 != key)).lookup key = none :=
      List.lookup_eq_none_iff.2 fun e he => by
        simpa only [bne_iff_ne, ne_comm] using (List.mem_filter.1 he).2
    simp only [CacheStore.get, hnone]

end Bourse.CacheStore
