import Bourse.Proofs.Cache.Store

/-!
# A store and its ledger

A ledger keeps every write, the latest first, and drops nothing. What a key holds by a ledger is the
text of its last write, unless its time to live has run out (`Ledger.textAt`): there are no sweeps,
no counts and no lookups in it.

A store holds a part of its ledger. It has nothing but last writes, and all of those that are alive
(`CacheStore.Mirrors`), so that each lookup answers what the ledger says. How much it holds besides
is bounded by its count of writes (`CacheStore.Tidy`): a write adds one expired entry at the most,
and every so many writes none is left. `ClockedStore.after_meets_ledger` puts the two together for
any uses of a store one after another.
-/

namespace Bourse

structure Ledger where
  now : ℕ
  /-- The writes that succeeded, the latest first. -/
  writes : List (String × CacheEntry)

namespace Ledger

/-- The text of the last write of a key, unless its time to live has run out. -/
def textAt (instant : ℕ) (key : String) (l : Ledger) : Option String :=
  (l.writes.lookup key).bind fun e => if e.isExpired instant then none else some e.text

def write (key text : String) (ttl : Option ℕ) (l : Ledger) : Ledger :=
  { l with writes := (key, ⟨text, l.now, ttl⟩) :: l.writes }

def elapse (milliseconds : ℕ) (l : Ledger) : Ledger :=
  { l with now := l.now + milliseconds }

theorem textAt_write (instant : ℕ) (key other text : String) (ttl : Option ℕ) (l : Ledger) :
    (l.write key text ttl).textAt instant other
      = if other = key then
          (if (CacheEntry.mk text l.now ttl).isExpired instant then none else some text)
        else l.textAt instant other := by
  rw [textAt, write, List.lookup_cons]
  split_ifs with hkey hexpired
  · rw [hkey, BEq.rfl]
    exact if_pos hexpired
  · rw [hkey, BEq.rfl]
    exact if_neg hexpired
  · rw [beq_false_of_ne hkey]
    rfl

end Ledger

namespace CacheStore

variable {s : CacheStore} {l : Ledger} {now : ℕ}

/-! ## What a store holds of its ledger -/

/-- The entries are last writes, and the last write of a key is among them while it is alive. -/
structure Mirrors (s : CacheStore) (l : Ledger) : Prop where
  last : ∀ e ∈ s.entries, l.writes.lookup e.1 = some e.2
  alive : ∀ key entry, l.writes.lookup key = some entry → ¬ entry.isExpired l.now →
    s.entries.lookup key = some entry

theorem mirrors_empty (purgeEvery now : ℕ) : (empty purgeEvery).Mirrors ⟨now, []⟩ :=
  ⟨fun _ he => absurd he List.not_mem_nil, fun _ _ h => by cases h⟩

namespace Mirrors

/-- Whatever the store has dropped, its answers are those of the ledger from now on. -/
theorem find? (h : s.Mirrors l) {instant : ℕ} (hle : l.now ≤ instant) (key : String) :
    s.find? instant key = l.textAt instant key := by
  unfold CacheStore.find? Ledger.textAt
  rcases hheld : s.entries.lookup key with _ | entry
  · rcases hlast : l.writes.lookup key with _ | entry
    · rfl
    · -- the store has no entry of the key, so the last write of it has expired
      by_cases hexpired : entry.isExpired l.now
      · exact (if_pos (isExpired_mono hexpired hle)).symm
      · rw [h.alive key entry hlast hexpired] at hheld
        cases hheld
  · rw [h.last _ (mem_of_lookup hheld)]
    rfl

/-- Entries may be dropped as long as those that are alive are kept. -/
theorem filter (h : s.Mirrors l) {keep : String × CacheEntry → Bool}
    (hkeep : ∀ e ∈ s.entries, ¬ e.2.isExpired l.now → keep e) :
    Mirrors { s with entries := s.entries.filter keep } l where
  last e he := h.last e (List.mem_filter.1 he).1
  alive key entry hlast halive := by
    have hheld := h.alive key entry hlast halive
    exact lookup_filter_keep (hkeep _ (mem_of_lookup hheld) halive) hheld

theorem get (h : s.Mirrors l) (key : String) : (s.get l.now key).2.Mirrors l := by
  rcases s.get_cases l.now key with hget | ⟨entry, hentry, hexpired, hget⟩ <;> rw [hget]
  · exact h
  · refine h.filter fun e he halive => ?_
    simp only [bne_iff_ne, ne_eq]
    rintro rfl
    -- both are the last write of the key
    have hlast := (h.last e he).symm.trans (h.last (e.1, entry) (mem_of_lookup hentry))
    obtain rfl := Option.some.inj hlast
    exact halive hexpired

theorem sweep (h : s.Mirrors l) : (s.sweep l.now).Mirrors l :=
  h.filter fun _ _ halive => by simpa using halive

theorem insert (h : s.Mirrors l) (key text : String) (ttl : Option ℕ) :
    (s.insert key ⟨text, l.now, ttl⟩).Mirrors (l.write key text ttl) := by
  refine ⟨fun e he => ?_, fun other entry hlast halive => ?_⟩
  · rcases List.mem_cons.1 he with rfl | he
    · exact List.lookup_cons_self
    · obtain ⟨he, hne⟩ := List.mem_filter.1 he
      rw [Ledger.write, List.lookup_cons, beq_false_of_ne (bne_iff_ne.1 hne)]
      exact h.last e he
  · by_cases hkey : other = key
    · subst hkey
      rw [Ledger.write, List.lookup_cons_self] at hlast
      exact List.lookup_cons_self.trans hlast
    · rw [Ledger.write, List.lookup_cons, beq_false_of_ne hkey] at hlast
      rw [CacheStore.insert, List.lookup_cons, beq_false_of_ne hkey, lookup_filter_ne _ hkey]
      exact h.alive other entry hlast halive

theorem set (h : s.Mirrors l) (key text : String) (ttl : Option ℕ) :
    (s.set l.now key text ttl).Mirrors (l.write key text ttl) := by
  rcases s.set_cases l.now key text ttl with hset | hset <;> rw [hset]
  · exact h.insert key text ttl
  · exact (h.insert key text ttl).sweep

theorem elapse (h : s.Mirrors l) (milliseconds : ℕ) : s.Mirrors (l.elapse milliseconds) where
  last := h.last
  alive key entry hlast halive :=
    h.alive key entry hlast fun hexpired =>
      halive (isExpired_mono hexpired (Nat.le_add_right _ _))

end Mirrors

/-! ## How much a store holds that has expired -/

/-- The expired entries a store still holds. -/
def stale (now : ℕ) (s : CacheStore) : List (String × CacheEntry) :=
  s.entries.filter fun e => e.2.isExpired now

theorem stale_sweep (now : ℕ) (s : CacheStore) : (s.sweep now).stale now = [] := by
  simp only [stale, sweep, List.filter_filter, List.filter_eq_nil_iff]
  simp

theorem cleanup_fst (now : ℕ) (s : CacheStore) : (s.cleanup now).1 = (s.stale now).length := by
  have hparts := List.length_eq_length_filter_add (l := s.entries) fun e => e.2.isExpired now
  simp only [cleanup, size, sweep, stale]
  omega

theorem stale_get (now : ℕ) (key : String) (s : CacheStore) :
    ((s.get now key).2.stale now).length ≤ (s.stale now).length := by
  rcases s.get_cases now key with hget | ⟨_, _, _, hget⟩
  · exact Nat.le_of_eq (by rw [hget])
  · rw [hget]
    exact (List.filter_sublist.filter _).length_le

theorem stale_insert (now : ℕ) (key : String) (entry : CacheEntry) (s : CacheStore) :
    ((s.insert key entry).stale now).length ≤ (s.stale now).length + 1 := by
  have hrest : ((s.entries.filter (·.1 != key)).filter fun e => e.2.isExpired now).length
      ≤ (s.stale now).length := (List.filter_sublist.filter _).length_le
  simp only [stale, insert, List.filter_cons]
  split_ifs
  · rw [List.length_cons]
    exact Nat.succ_le_succ hrest
  · exact Nat.le_succ_of_le hrest

/-- The expired entries held are no more than the writes since the count last came round. -/
def Tidy (now : ℕ) (s : CacheStore) : Prop :=
  (s.stale now).length ≤ s.writes % s.purgeEvery

theorem tidy_empty (purgeEvery now : ℕ) : (empty purgeEvery).Tidy now :=
  Nat.zero_le _

theorem purgeEvery_get (now : ℕ) (key : String) (s : CacheStore) :
    (s.get now key).2.purgeEvery = s.purgeEvery := by
  rcases s.get_cases now key with hget | ⟨_, _, _, hget⟩ <;> rw [hget]

theorem counts_set (now : ℕ) (key text : String) (ttl : Option ℕ) (s : CacheStore) :
    (s.set now key text ttl).writes = s.writes + 1 ∧
      (s.set now key text ttl).purgeEvery = s.purgeEvery := by
  rcases s.set_cases now key text ttl with hset | hset <;> rw [hset]
  · exact ⟨rfl, rfl⟩
  · exact ⟨rfl, rfl⟩

theorem Tidy.get (h : s.Tidy now) (key : String) : (s.get now key).2.Tidy now := by
  unfold Tidy
  rw [writes_get, purgeEvery_get]
  exact Nat.le_trans (stale_get now key s) h

theorem tidy_sweep (now : ℕ) (s : CacheStore) : (s.sweep now).Tidy now := by
  unfold Tidy
  rw [stale_sweep]
  exact Nat.zero_le _

theorem succ_mod_of_ne_zero {count every : ℕ} (h : (count + 1) % every ≠ 0) :
    (count + 1) % every = count % every + 1 := by
  rcases every with _ | _ | every
  · simp only [Nat.mod_zero]
  · exact absurd (Nat.mod_one _) h
  · rw [Nat.add_mod, Nat.mod_eq_of_lt (show 1 < every + 1 + 1 by omega)] at h ⊢
    have hlt : count % (every + 1 + 1) < every + 1 + 1 := Nat.mod_lt _ (by omega)
    by_cases hround : count % (every + 1 + 1) + 1 = every + 1 + 1
    · rw [hround, Nat.mod_self] at h
      exact absurd rfl h
    · exact Nat.mod_eq_of_lt (by omega)

/-- A write adds one expired entry at the most, and when the count comes round it leaves none. -/
theorem Tidy.set (h : s.Tidy now) (key text : String) (ttl : Option ℕ) :
    (s.set now key text ttl).Tidy now := by
  simp only [CacheStore.set]
  split_ifs with hround
  · exact tidy_sweep now _
  · have hinsert := stale_insert now key ⟨text, now, ttl⟩ s
    change (s.writes + 1) % s.purgeEvery ≠ 0 at hround
    change _ ≤ (s.writes + 1) % s.purgeEvery
    rw [succ_mod_of_ne_zero hround]
    unfold Tidy at h
    omega

end CacheStore

/-! ## Uses of a store -/

/-- Something done with a store, or a while in which nothing is. -/
inductive CacheUse
  | set (key text : String) (ttl : Option ℕ)
  | get (key : String)
  | cleanup
  | wait (milliseconds : ℕ)
deriving DecidableEq

namespace Ledger

def use (l : Ledger) : CacheUse → Ledger
  | .set key text ttl => l.write key text ttl
  | .get _ => l
  | .cleanup => l
  | .wait milliseconds => l.elapse milliseconds

def after (l : Ledger) (uses : List CacheUse) : Ledger :=
  uses.foldl use l

/-- What a lookup answers by the ledger; nothing else does. -/
def replies (l : Ledger) : CacheUse → List (Option String)
  | .get key => [l.textAt l.now key]
  | _ => []

/-- The answers of the lookups among some uses, in order. -/
def answers : List CacheUse → Ledger → List (Option String)
  | [], _ => []
  | use :: uses, l => l.replies use ++ answers uses (l.use use)

/-- Each write has expired as soon as it was written, or has not even at an instant. -/
def Settled (instant : ℕ) (l : Ledger) : Prop :=
  ∀ w ∈ l.writes, w.2.isExpired w.2.writtenAt ∨ ¬ w.2.isExpired instant

/-- Time only passes, and no write is forgotten. -/
theorem le_after (l : Ledger) (uses : List CacheUse) :
    l.writes ⊆ (l.after uses).writes ∧ l.now ≤ (l.after uses).now := by
  induction uses generalizing l with
  | nil => exact ⟨List.Subset.refl _, Nat.le_refl _⟩
  | cons u uses ih =>
    have hstep : l.writes ⊆ (l.use u).writes ∧ l.now ≤ (l.use u).now := by
      cases u with
      | set => exact ⟨List.subset_cons_self _ _, Nat.le_refl _⟩
      | get | cleanup => exact ⟨List.Subset.refl _, Nat.le_refl _⟩
      | wait => exact ⟨List.Subset.refl _, Nat.le_add_right _ _⟩
    exact ⟨List.Subset.trans hstep.1 (ih (l.use u)).1, Nat.le_trans hstep.2 (ih (l.use u)).2⟩

theorem answers_filter_cleanup : ∀ (uses : List CacheUse) (l : Ledger),
    answers (uses.filter (· ≠ .cleanup)) l = answers uses l
  | [], _ => rfl
  | use :: uses, l => by
    by_cases hcleanup : use = .cleanup
    · subst hcleanup
      rw [List.filter_cons_of_neg (by decide), answers_filter_cleanup uses]
      rfl
    · rw [List.filter_cons_of_pos (by simpa using hcleanup), answers, answers,
        answers_filter_cleanup uses]

end Ledger

/-- A store and the instant it is at. -/
structure ClockedStore where
  now : ℕ
  store : CacheStore

namespace ClockedStore

def fresh (purgeEvery now : ℕ) : ClockedStore :=
  ⟨now, CacheStore.empty purgeEvery⟩

def use (c : ClockedStore) : CacheUse → ClockedStore
  | .set key text ttl => { c with store := c.store.set c.now key text ttl }
  | .get key => { c with store := (c.store.get c.now key).2 }
  | .cleanup => { c with store := (c.store.cleanup c.now).2 }
  | .wait milliseconds => { c with now := c.now + milliseconds }

def after (c : ClockedStore) (uses : List CacheUse) : ClockedStore :=
  uses.foldl use c

def replies (c : ClockedStore) : CacheUse → List (Option String)
  | .get key => [(c.store.get c.now key).1]
  | _ => []

/-- The answers of the lookups among some uses, in order. -/
def answers : List CacheUse → ClockedStore → List (Option String)
  | [], _ => []
  | use :: uses, c => c.replies use ++ answers uses (c.use use)

/-- A store in the course of its uses: it mirrors the ledger, and counts what that has. -/
structure Follows (purgeEvery : ℕ) (c : ClockedStore) (l : Ledger) : Prop where
  now : c.now = l.now
  mirrors : c.store.Mirrors l
  past : ∀ w ∈ l.writes, w.2.writtenAt ≤ l.now
  writes : c.store.writes = l.writes.length
  purgeEvery : c.store.purgeEvery = max 1 purgeEvery

theorem follows_fresh (purgeEvery now : ℕ) :
    (fresh purgeEvery now).Follows purgeEvery ⟨now, []⟩ :=
  ⟨rfl, CacheStore.mirrors_empty purgeEvery now, fun _ hw => absurd hw List.not_mem_nil, rfl,
    Nat.max_comm _ _⟩

variable {purgeEvery : ℕ} {c : ClockedStore} {l : Ledger}

theorem Follows.use (h : c.Follows purgeEvery l) (u : CacheUse) :
    (c.use u).Follows purgeEvery (l.use u) := by
  obtain ⟨now, store⟩ := c
  obtain ⟨rfl, hmirrors, hpast, hwrites, hevery⟩ := h
  cases u with
  | set key text ttl =>
    obtain ⟨hset, hkept⟩ := store.counts_set l.now key text ttl
    refine ⟨rfl, hmirrors.set key text ttl, fun w hw => ?_, ?_, hkept.trans hevery⟩
    · rcases List.mem_cons.1 hw with rfl | hw
      · exact Nat.le_refl _
      · exact hpast w hw
    · exact hset.trans (congrArg (· + 1) hwrites)
  | get key =>
    refine ⟨rfl, hmirrors.get key, hpast, ?_, ?_⟩
    · exact (store.writes_get _ _).trans hwrites
    · exact (store.purgeEvery_get _ _).trans hevery
  | cleanup => exact ⟨rfl, hmirrors.sweep, hpast, hwrites, hevery⟩
  | wait milliseconds =>
    exact ⟨rfl, hmirrors.elapse milliseconds,
      fun w hw => Nat.le_trans (hpast w hw) (Nat.le_add_right _ _), hwrites, hevery⟩

theorem Follows.after (h : c.Follows purgeEvery l) :
    ∀ uses, (c.after uses).Follows purgeEvery (l.after uses) := by
  intro uses
  induction uses generalizing c l with
  | nil => exact h
  | cons u uses ih => exact ih (h.use u)

theorem Follows.replies (h : c.Follows purgeEvery l) (u : CacheUse) :
    c.replies u = l.replies u := by
  cases u with
  | get key =>
    simp only [ClockedStore.replies, Ledger.replies, CacheStore.get_fst, h.now,
      h.mirrors.find? (Nat.le_refl _)]
  | set | cleanup | wait => rfl

theorem Follows.answers (h : c.Follows purgeEvery l) :
    ∀ uses, c.answers uses = l.answers uses := by
  intro uses
  induction uses generalizing c l with
  | nil => rfl
  | cons u uses ih =>
    rw [ClockedStore.answers, Ledger.answers, h.replies u, ih (h.use u)]

/-! ## The bound on what has expired -/

/-- The expired entries a store holds at its instant. -/
def stale (c : ClockedStore) : List (String × CacheEntry) :=
  c.store.stale c.now

/-- Where each write is expired from its first instant on or not at all, nothing expires by and
by. -/
theorem Follows.stale_wait (h : c.Follows purgeEvery l) {last milliseconds : ℕ}
    (hsettled : l.Settled last) (hle : c.now + milliseconds ≤ last) :
    (c.use (.wait milliseconds)).stale = c.stale := by
  refine List.filter_congr fun e he => ?_
  have hwritten : e ∈ l.writes :=
    CacheStore.mem_of_lookup (h.mirrors.last e he)
  have hnow : e.2.writtenAt ≤ c.now := h.now ▸ h.past e hwritten
  rw [Bool.eq_iff_iff]
  refine ⟨fun hlater => ?_, fun hnow => CacheStore.isExpired_mono hnow (Nat.le_add_right _ _)⟩
  rcases hsettled e hwritten with hatOnce | hnever
  · exact CacheStore.isExpired_mono hatOnce hnow
  · exact absurd (CacheStore.isExpired_mono hlater hle) hnever

/-- A use keeps the bound, given that what it has come to has written nothing that expires later
than at once and before the last instant. -/
theorem Follows.tidy_use (h : c.Follows purgeEvery l) (htidy : c.store.Tidy c.now) {last : ℕ}
    (u : CacheUse) (hsettled : (l.use u).Settled last) (hle : (l.use u).now ≤ last) :
    (c.use u).store.Tidy (c.use u).now := by
  cases u with
  | set key text ttl => exact htidy.set key text ttl
  | get key => exact htidy.get key
  | cleanup => exact c.store.tidy_sweep c.now
  | wait milliseconds =>
    have hstale : (c.use (.wait milliseconds)).stale = c.stale :=
      h.stale_wait hsettled (h.now ▸ hle)
    exact Nat.le_trans (Nat.le_of_eq (congrArg List.length hstale)) htidy

theorem Follows.tidy_after (h : c.Follows purgeEvery l) (htidy : c.store.Tidy c.now) {last : ℕ}
    (uses : List CacheUse) (hsettled : (l.after uses).Settled last)
    (hle : (l.after uses).now ≤ last) : (c.after uses).store.Tidy (c.after uses).now := by
  induction uses generalizing c l with
  | nil => exact htidy
  | cons u uses ih =>
    obtain ⟨hwrites, hnow⟩ := (l.use u).le_after uses
    have hsettledUse : (l.use u).Settled last := fun w hw => hsettled w (hwrites hw)
    exact ih (h.use u) (h.tidy_use htidy u hsettledUse (Nat.le_trans hnow hle)) hsettled hle

/-- Over any uses a store answers what its ledger says, which knows of no sweeps and no cleanups, so
that neither how often it sweeps nor any cleanup more or less changes an answer. It holds every last
write that is alive, a cleanup drops as many entries as have expired and none besides, and, where
writes expire at once or not at all, it never holds more of these than the writes modulo the number
after which it sweeps. -/
theorem after_meets_ledger (purgeEvery start : ℕ) (uses : List CacheUse) :
    let c := (fresh purgeEvery start).after uses
    let l := (⟨start, []⟩ : Ledger).after uses
    ((fresh purgeEvery start).answers uses = (⟨start, []⟩ : Ledger).answers uses ∧
      ∀ purgeEvery' uses', uses'.filter (· ≠ .cleanup) = uses.filter (· ≠ .cleanup) →
        (fresh purgeEvery' start).answers uses' = (fresh purgeEvery start).answers uses) ∧
    (∀ key entry, l.writes.lookup key = some entry → ¬ entry.isExpired c.now →
      (key, entry) ∈ c.store.entries) ∧
    ((c.store.cleanup c.now).1 = c.stale.length ∧
      (c.store.cleanup c.now).2.entries = c.store.entries.filter fun e => !e.2.isExpired c.now) ∧
    (l.Settled l.now → c.stale.length ≤ l.writes.length % max 1 purgeEvery) := by
  intro c l
  have hfresh := follows_fresh purgeEvery start
  have h : c.Follows purgeEvery l := hfresh.after uses
  refine ⟨⟨hfresh.answers uses, fun purgeEvery' uses' hsame => ?_⟩,
    fun key entry hlast halive => ?_, ⟨c.store.cleanup_fst c.now, rfl⟩, fun hsettled => ?_⟩
  · rw [hfresh.answers uses, (follows_fresh purgeEvery' start).answers uses',
      ← Ledger.answers_filter_cleanup uses', hsame, Ledger.answers_filter_cleanup]
  · exact CacheStore.mem_of_lookup (h.mirrors.alive key entry hlast (h.now ▸ halive))
  · have htidy : c.store.Tidy c.now := hfresh.tidy_after
      (CacheStore.tidy_empty purgeEvery start) uses hsettled (Nat.le_refl _)
    unfold CacheStore.Tidy at htidy
    rwa [h.writes, h.purgeEvery] at htidy

/-- Of two writes that expire at once the first is swept, as every other write is followed by a
sweep, and the second is still held: the bound is met. With a sweep after every write and a cleanup
among the uses the answers are the same. -/
theorem after_meets_ledger_met :
    let uses : List CacheUse :=
      [.set "a" "1" none, .set "b" "2" (some 0), .set "c" "3" (some 0), .get "a", .get "b"]
    let c := (fresh 2 0).after uses
    (fresh 2 0).answers uses = [some "1", none] ∧
      (fresh 1 0).answers (.cleanup :: uses) = (fresh 2 0).answers uses ∧
      ("a", ⟨"1", 0, none⟩) ∈ c.store.entries ∧
      c.stale.length = 1 ∧ c.stale.length ≤ 3 % 2 := by
  intro uses c
  obtain ⟨⟨-, hsame⟩, hheld, -, hbound⟩ := after_meets_ledger 2 0 uses
  refine ⟨by decide, hsame 1 (.cleanup :: uses) rfl, ?_, by decide, hbound ?_⟩
  · exact hheld "a" ⟨"1", 0, none⟩ (by decide) (by decide)
  · unfold Ledger.Settled
    decide

end ClockedStore

end Bourse
