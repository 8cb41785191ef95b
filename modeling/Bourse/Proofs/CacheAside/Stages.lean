import Bourse.Proofs.SingleFlight.Phases

/-!
# Stages of a request without turns

A request that takes no turn looks its key up, computes when it has missed, and stores what it
computed (`Stage`). Each step leads from one stage to the next (`Stage.next`), and what is found
under the key from then on is the same as before, unless the request was about to store a value
(`Stage.advance_program`). The program of a request tells when it looks its key up
(`Stage.looksUp_program`) and when it stores (`Stage.stores_program`).
-/

namespace Bourse

variable {α : Type}

namespace Program

/-- The next step of the program looks the key up. -/
def LooksUp (key : String) : Program α → Prop
  | .lookup k _ => k = key
  | _ => False

/-- The next step of the program stores the text under the key. -/
def Stores (key text : String) : Program α → Prop
  | .store k t _ _ => k = key ∧ t = text
  | _ => False

variable {key : String} {p : Program α}

theorem Avoids.not_looksUp {β : Type} (hp : p.Avoids key) (hresult : p.result? = none)
    (f : α → Program β) : ¬(p.bind f).LooksUp key := by
  cases p with
  | done a => cases hresult
  | lookup k next => exact hp.1
  | _ => exact id

theorem Avoids.not_stores {β : Type} (hp : p.Avoids key) (hresult : p.result? = none)
    (f : α → Program β) (text : String) : ¬(p.bind f).Stores key text := by
  cases p with
  | done a => cases hresult
  | store k t ttl next => exact fun h => hp.1 h.1
  | _ => exact id

theorem result?_bind {β : Type} (hresult : p.result? = none) (f : α → Program β) :
    (p.bind f).result? = none := by
  cases p with
  | done a => cases hresult
  | _ => rfl

end Program

/-- A working backend between two instants, which from now on finds what `found` says under the key
at each instant. -/
structure Backend.Serves (key : String) (first last : ℕ) (found : ℕ → Option String)
    (b : Backend) : Prop where
  lookups : b.lookups = .healthy
  writes : b.writes = .healthy
  since : first ≤ b.now
  upTo : b.now ≤ last
  keyed : b.cache.Keyed
  finds : ∀ instant, b.now ≤ instant → instant ≤ last → b.cache.find? instant key = found instant

namespace Backend.Serves

variable {key : String} {first last : ℕ} {found : ℕ → Option String} {b : Backend}

theorem find? (h : b.Serves key first last found) : b.cache.find? b.now key = found b.now :=
  h.finds b.now (Nat.le_refl _) h.upTo

theorem elapse (h : b.Serves key first last found) {milliseconds : ℕ}
    (hlast : b.now + milliseconds ≤ last) :
    (b.elapse milliseconds).Serves key first last found where
  lookups := h.lookups
  writes := h.writes
  since := Nat.le_trans h.since (Nat.le_add_right _ _)
  upTo := hlast
  keyed := h.keyed
  finds instant hnow := h.finds instant (Nat.le_trans (Nat.le_add_right _ _) hnow)

theorem lookup (h : b.Serves key first last found) (k : String) :
    (b.lookup k).2.Serves key first last found := by
  rw [Backend.lookup, h.lookups]
  refine ⟨rfl, h.writes, h.since, h.upTo, h.keyed.get _ _, fun instant hnow hlast => ?_⟩
  exact (h.keyed.find?_get hnow key k).trans (h.finds instant hnow hlast)

theorem store (h : b.Serves key first last found) {k : String} (hk : k ≠ key) (text : String)
    (ttl : Option ℕ) : (b.store k text ttl).2.Serves key first last found := by
  rw [Backend.store, h.writes]
  refine ⟨h.lookups, rfl, h.since, h.upTo, h.keyed.set _ _ _ _, fun instant hnow hlast => ?_⟩
  refine (h.keyed.find?_set hnow key k text ttl).trans ?_
  rw [if_neg hk.symm]
  exact h.finds instant hnow hlast

theorem store_self (h : b.Serves key first last found) (text : String) {ttl : Option ℕ}
    (httl : ∀ seconds, ttl = some seconds → last < first + 1000 * seconds) :
    (b.store key text ttl).2.Serves key first last fun _ => some text := by
  rw [Backend.store, h.writes]
  refine ⟨h.lookups, rfl, h.since, h.upTo, h.keyed.set _ _ _ _, fun instant hnow hlast => ?_⟩
  refine (h.keyed.find?_set hnow key key text ttl).trans ?_
  have halive : ¬(CacheEntry.mk text b.now ttl).isExpired instant := by
    simp only [CacheEntry.isExpired, Option.any_eq_true, decide_eq_true_eq, not_exists, not_and]
    intro seconds hseconds
    have hlong := httl seconds hseconds
    have hsince := h.since
    omega
  rw [if_pos rfl]
  exact if_neg halive

/-- The locks, the rows and the log do not matter. -/
theorem elsewhere (h : b.Serves key first last found) (inFlight : InFlight) (source : RowSource)
    (log : List Event) : Backend.Serves key first last found
      { b with inFlight := inFlight, source := source, log := log } :=
  ⟨h.lookups, h.writes, h.since, h.upTo, h.keyed, h.finds⟩

/-- What a program does that is not about the key changes nothing under it. -/
theorem advance (h : b.Serves key first last found) {p : Program α} (hp : p.Avoids key) (i : ℕ) :
    (p.advance i b).2.Serves key first last found := by
  cases p with
  | done a => exact h
  | lookup k next => exact h.lookup k
  | store k text ttl next => exact h.store hp.1 text ttl
  | ask statement next => exact h.elsewhere _ _ _
  | enter k next =>
    simp only [Program.advance]
    split_ifs
    · exact h
    · exact h
    · exact h.elsewhere _ _ _
    · exact h.elsewhere _ _ _
  | leave k next => exact h.elsewhere _ _ _
  | compute next => exact h.elsewhere _ _ _

end Backend.Serves

variable [Payload α]

namespace Gateway

variable (g : Gateway) (key : String)

/-- What a request still does when its computation has come to an outcome. -/
def keep (ttl : Option ℕ) (outcome : Except Fault α) : Program (Except Fault α) :=
  (g.computeAndStore key ttl (Analysis.ofExcept outcome)).run

theorem exists_keep_ok (ttl : Option ℕ) (v : α) : ∃ next,
    g.keep key ttl (.ok v) = .store key (Payload.write v) ttl next ∧
      next (.answered ()) = .done (.ok v) :=
  ⟨_, rfl, rfl⟩

variable (i : ℕ) {b : Backend}

/-- The lookup of a request answers it, or its computation begins. -/
theorem advance_fetch (hb : b.lookups = .healthy) (r : Request α) :
    (g.fetch key r.ttl r.computation).run.advance i b
      = (match (b.cache.find? b.now key).bind (Payload.read (α := α)) with
          | some hit => .done (.ok hit)
          | none => r.computation.run.bind (g.keep key r.ttl), (b.lookup key).2) := by
  rw [fetch, advance_get g key i hb]
  rcases (b.cache.find? b.now key).bind (Payload.read (α := α)) with _ | hit <;> rfl

end Gateway

/-- How far a request has got that takes no turn. When its computation has failed, nothing is left
of it to do. -/
inductive Stage (α : Type) where
  | arriving
  | computing (p : Program (Except Fault α))
  | answered (v : α)

namespace Stage

/-- What is left of a request in a stage. -/
def program (g : Gateway) (key : String) (r : Request α) : Stage α → Program (Except Fault α)
  | arriving => (g.fetch key r.ttl r.computation).run
  | computing p => p.bind (g.keep key r.ttl)
  | answered v => .done (.ok v)

/-- The stage after a step of the request, at place `i`. -/
def next (key : String) (r : Request α) (i : ℕ) (b : Backend) : Stage α → Stage α
  | arriving =>
    match (b.cache.find? b.now key).bind Payload.read with
    | some hit => answered hit
    | none => computing r.computation.run
  | computing (.done (.ok v)) => answered v
  | computing p => computing (p.advance i b).1
  | answered v => answered v

/-- What is found after a step of the request, which stores what it computed. -/
def deposit (found : ℕ → Option String) : Stage α → ℕ → Option String
  | computing (.done (.ok v)) => fun _ => some (Payload.write v)
  | _ => found

/-- What remains of a computation is not about the key, and its value will be read back. -/
def Sound (key : String) : Stage α → Prop
  | computing p => p.Avoids key ∧ p.Ends Recoverable
  | _ => True

variable {key : String} {first last : ℕ} {found : ℕ → Option String} {b : Backend} {s : Stage α}
  {r : Request α} (g : Gateway) (i : ℕ)

theorem next_arriving {hit : α}
    (h : (b.cache.find? b.now key).bind Payload.read = some hit) :
    arriving.next key r i b = answered hit := by
  rw [next, h]

theorem next_computing {p : Program (Except Fault α)} (hp : ∀ v, p ≠ .done (.ok v)) :
    (computing p).next key r i b = computing (p.advance i b).1 := by
  unfold next
  split
  · next h => cases h
  · next v h =>
    cases h
    exact absurd rfl (hp v)
  · next h =>
    cases h
    rfl
  · next h => cases h

theorem deposit_computing {p : Program (Except Fault α)} (hp : ∀ v, p ≠ .done (.ok v)) :
    (computing p).deposit found = found := by
  unfold deposit
  split
  · next v h =>
    cases h
    exact absurd rfl (hp v)
  · rfl

theorem Sound.next (hr : r.Proper key first last) (hs : s.Sound key) :
    (s.next key r i b).Sound key := by
  rcases s with _ | p | v
  · rw [Stage.next]
    split
    · trivial
    · exact ⟨hr.avoids, hr.recoverable⟩
  · by_cases hp : ∃ v, p = .done (.ok v)
    · obtain ⟨v, rfl⟩ := hp
      trivial
    · rw [next_computing i (not_exists.1 hp)]
      exact ⟨hs.1.advance i b, hs.2.advance i b⟩
  · trivial

/-- A step leads from one stage to the next, and what is found from then on is the same, but for the
value that is stored. -/
theorem advance_program (hr : r.Proper key first last) (hb : b.Serves key first last found)
    (hs : s.Sound key) : ∃ b', (s.program g key r).advance i b
        = ((s.next key r i b).program g key r, b') ∧
      b'.Serves key first last (s.deposit found) := by
  rcases s with _ | p | v
  · refine ⟨_, ?_, hb.lookup key⟩
    rw [program, g.advance_fetch key i hb.lookups, next]
    rcases (b.cache.find? b.now key).bind (Payload.read (α := α)) with _ | hit <;> rfl
  · rcases hresult : p.result? with _ | outcome
    · have hp : ∀ v, p ≠ .done (.ok v) := by
        rintro v rfl
        cases hresult
      refine ⟨(p.advance i b).2, ?_, ?_⟩
      · rw [next_computing i hp]
        exact Program.advance_bind i hresult _ b
      · rw [deposit_computing hp]
        exact hb.advance hs.1 i
    · obtain rfl := Program.eq_done_of_result? hresult
      rcases outcome with e | v
      · exact ⟨b, rfl, hb⟩
      · obtain ⟨next, hkeep, hnext⟩ := g.exists_keep_ok key r.ttl v
        have hreply : (b.store key (Payload.write v) r.ttl).1 = .answered () := by
          rw [Backend.store, hb.writes]
        refine ⟨_, ?_, hb.store_self _ hr.lasts⟩
        rw [program, Program.done_bind, hkeep, Program.advance, hreply, hnext]
        rfl
  · exact ⟨b, rfl, hb⟩

/-- A request is done when it has answered or its computation has failed. -/
theorem result?_program {outcome : Except Fault α}
    (h : (s.program g key r).result? = some outcome) :
    (∃ v, outcome = .ok v ∧ s = answered v) ∨
      ∃ e, outcome = .error e ∧ s = computing (.done (.error e)) := by
  rcases s with _ | p | v
  · cases h
  · rcases hresult : p.result? with _ | own
    · rw [program, Program.result?_bind hresult] at h
      cases h
    · obtain rfl := Program.eq_done_of_result? hresult
      rcases own with e | v <;> cases h
      exact .inr ⟨e, rfl, rfl⟩
  · cases h
    exact .inl ⟨v, rfl, rfl⟩

/-- Only a request that arrives looks its key up. -/
theorem looksUp_program (hs : s.Sound key) :
    (s.program g key r).LooksUp key ↔ s = arriving := by
  rcases s with _ | p | v
  · exact iff_of_true rfl rfl
  · refine iff_of_false ?_ nofun
    rcases hresult : p.result? with _ | outcome
    · exact hs.1.not_looksUp hresult _
    · obtain rfl := Program.eq_done_of_result? hresult
      rcases outcome with e | v <;> exact id
  · exact iff_of_false id nofun

/-- Only a request that has computed a value stores, and it stores that value. -/
theorem stores_program (hs : s.Sound key) {text : String} :
    (s.program g key r).Stores key text
      ↔ ∃ v, s = computing (.done (.ok v)) ∧ Payload.write v = text := by
  rcases s with _ | p | v
  · exact iff_of_false id fun ⟨v, h, _⟩ => nomatch h
  · rcases hresult : p.result? with _ | outcome
    · refine iff_of_false (hs.1.not_stores hresult _ _) ?_
      rintro ⟨v, h, -⟩
      cases h
      cases hresult
    · obtain rfl := Program.eq_done_of_result? hresult
      rcases outcome with e | v
      · exact iff_of_false id fun ⟨v, h, _⟩ => nomatch h
      · obtain ⟨next, hkeep, -⟩ := g.exists_keep_ok key r.ttl v
        rw [program, Program.done_bind, hkeep]
        constructor
        · exact fun h => ⟨v, rfl, h.2⟩
        · rintro ⟨w, h, rfl⟩
          cases h
          exact ⟨rfl, rfl⟩
  · exact iff_of_false id fun ⟨v, h, _⟩ => nomatch h

end Stage

end Bourse
