import Mathlib.Logic.Hydra
import Mathlib.Order.WellFounded
import Bourse.Proofs.Cache.InFlight
import Bourse.Proofs.Program.Locks

/-!
# Order among locks

Programs on one backend take steps in any order, and each of them asks for locks only as a rule
allows beside those that it holds. A program is the first in the queue for each lock that it holds,
and is in no other queue but the one for the lock that it asks for (`Placed`). A step keeps this for
the program that takes it (`Placed.moved`) and for the others (`Placed.of_ne`), and so does a run
(`Crew.Orderly.of_reaches`). When locks cannot be asked for one beside another for ever, programs
never all wait for each other (`Crew.Orderly.exists_not_waits`), and can always finish
(`Crew.Orderly.exists_run_finished`).
-/

namespace Bourse

variable {α : Type} {rule : String → String → Prop}

/-! ## Places in the queues -/

/-- How the program at place `i` stands to the locks: it holds those of `held`, the latest first. -/
structure Placed (rule : String → String → Prop) (s : InFlight) (i : ℕ) (held : List String)
    (p : Program α) : Prop where
  nests : p.Nests rule held []
  nodup : held.Nodup
  first : ∀ key ∈ held, (s.queue key).head? = some i
  queued : ∀ key, i ∈ s.queue key → key ∈ held ∨ ∃ next, p = .enter key next

namespace Placed

variable {s s' : InFlight} {i j : ℕ} {held : List String} {p q : Program α}

/-- A step of another program moves nothing that matters here. -/
theorem of_ne (h : Placed rule s j held p) (hj : j ≠ i)
    (hturned : ∀ key, Turned i (s.queue key) (s'.queue key)) : Placed rule s' j held p where
  nests := h.nests
  nodup := h.nodup
  first key hkey := (hturned key).head?_of_ne hj (h.first key hkey)
  queued key hkey := h.queued key (((hturned key).mem_iff hj).1 hkey)

end Placed

/-! ## Steps -/

/-- What is left of the program at place `i` after a step, and how the queues have changed. -/
structure Moved (rule : String → String → Prop) (i : ℕ) (s s' : InFlight) (p : Program α) :
    Prop where
  wellFormed : s'.WellFormed
  turned : ∀ key, Turned i (s.queue key) (s'.queue key)
  placed : ∃ held, Placed rule s' i held p

/-- Asking for a lock takes a place in its queue, and goes on once that is the first. -/
theorem Program.exists_advance_enter {b : Backend} (hb : b.inFlight.WellFormed) (i : ℕ)
    (key : String) (next : Program α) : ∃ b' : Backend, b'.inFlight.WellFormed ∧
      i ∈ b'.inFlight.queue key ∧ Turned i (b.inFlight.queue key) (b'.inFlight.queue key) ∧
      (∀ other, other ≠ key → b'.inFlight.queue other = b.inFlight.queue other) ∧
      (enter key next).advance i b
        = if (b'.inFlight.queue key).head? = some i then (next, b') else (enter key next, b') := by
  have hadvance : ∀ {b' : Backend}, b'.inFlight.WellFormed →
      (if b'.inFlight.holds i key then (next, b') else (enter key next, b'))
        = if (b'.inFlight.queue key).head? = some i then (next, b') else (enter key next, b') :=
    fun hb' => if_congr (InFlight.holds_iff hb') rfl rfl
  by_cases hqueued : (b.inFlight.handle? i key).isSome
  · refine ⟨b, hb, InFlight.handle?_isSome.1 hqueued, .same, fun _ _ => rfl, ?_⟩
    simp only [advance, if_pos hqueued]
    exact hadvance hb
  · have hqueue := InFlight.queue_join b.inFlight i key
    have hmem : i ∈ (b.inFlight.join i key).queue key := by
      rw [hqueue, if_pos rfl]
      exact List.mem_concat_self
    refine ⟨b.enter i key, hb.join i key, hmem,
      InFlight.turned_join (mt InFlight.handle?_isSome.2 hqueued) key,
      fun other hother => (hqueue other).trans (if_neg hother), ?_⟩
    simp only [advance, if_neg hqueued]
    exact hadvance (hb.join i key)

namespace Placed

variable {i : ℕ} {held : List String} {b : Backend} {key : String} {next : Program α}

/-- Who asks for a lock holds it then, or waits for it. -/
theorem moved_enter (h : Placed rule b.inFlight i held (.enter key next))
    (hrule : ∀ k, ¬rule k k) (hb : b.inFlight.WellFormed) :
    Moved rule i b.inFlight ((Program.enter key next).advance i b).2.inFlight
      ((Program.enter key next).advance i b).1 := by
  obtain ⟨b', hb', -, hturned, hothers, hadvance⟩ := Program.exists_advance_enter hb i key next
  have hnew : key ∉ held := fun hmem => hrule key (h.nests.1 key hmem)
  have hturned' : ∀ other, Turned i (b.inFlight.queue other) (b'.inFlight.queue other) := by
    intro other
    by_cases hother : other = key
    · exact hother ▸ hturned
    · exact hothers other hother ▸ .same
  have hfirst : ∀ k ∈ held, (b'.inFlight.queue k).head? = some i := by
    intro k hk
    rw [hothers k (ne_of_mem_of_not_mem hk hnew)]
    exact h.first k hk
  have hqueued : ∀ k, i ∈ b'.inFlight.queue k → k = key ∨ k ∈ held := by
    intro k hk
    by_cases hkey : k = key
    · exact .inl hkey
    · rw [hothers k hkey] at hk
      rcases h.queued k hk with hmem | ⟨_, heq⟩
      · exact .inr hmem
      · exact absurd (Program.enter.inj heq).1.symm hkey
  rw [hadvance]
  split_ifs with hhead
  · exact ⟨hb', hturned', key :: held, h.nests.2, h.nodup.cons hnew,
      List.forall_mem_cons.2 ⟨hhead, hfirst⟩, fun k hk => .inl (List.mem_cons.2 (hqueued k hk))⟩
  · refine ⟨hb', hturned', held, h.nests, h.nodup, hfirst, fun k hk => ?_⟩
    rcases hqueued k hk with rfl | hmem
    · exact .inr ⟨next, rfl⟩
    · exact .inl hmem

/-- Who gives a lock back goes out of its queue. -/
theorem moved_leave (h : Placed rule b.inFlight i held (.leave key next))
    (hb : b.inFlight.WellFormed) (hnodup : (b.inFlight.queue key).Nodup) :
    Moved rule i b.inFlight (b.leave i key).inFlight next := by
  obtain ⟨rest, rfl⟩ : ∃ rest, held = key :: rest := List.head?_eq_some_iff.1 h.nests.1
  obtain ⟨hnew, hrest⟩ := List.nodup_cons.1 h.nodup
  have hqueue := InFlight.queue_leave hb i key
  refine ⟨hb.leave i key, InFlight.turned_leave hb (h.first key List.mem_cons_self), rest,
    h.nests.2, hrest, fun k hk => ?_, fun k hk => ?_⟩
  · rw [Backend.leave, hqueue, if_neg (ne_of_mem_of_not_mem hk hnew)]
    exact h.first k (List.mem_cons_of_mem key hk)
  · rw [Backend.leave, hqueue] at hk
    split_ifs at hk with hkey
    · exact absurd hk hnodup.not_mem_erase
    · rcases h.queued k hk with hmem | ⟨_, heq⟩
      · exact .inl ((List.mem_cons.1 hmem).resolve_left hkey)
      · cases heq

/-- A step that is about no lock leaves the queues as they are. -/
theorem moved_of_eq {p q : Program α} {s s' : InFlight} (h : Placed rule s i held p)
    (hp : ∀ key next, p ≠ .enter key next) (hq : q.Nests rule held []) (hs : s.WellFormed)
    (heq : s' = s) : Moved rule i s s' q := by
  subst heq
  exact ⟨hs, fun _ => .same, held, hq, h.nodup, h.first, fun key hkey =>
    .inl ((h.queued key hkey).resolve_right fun ⟨next, hnext⟩ => hp key next hnext)⟩

/-- A step keeps the program where it stands, or moves it by one lock. -/
theorem moved {p : Program α} (h : Placed rule b.inFlight i held p) (hrule : ∀ k, ¬rule k k)
    (hb : b.inFlight.WellFormed) (hnodup : ∀ key, (b.inFlight.queue key).Nodup) :
    Moved rule i b.inFlight (p.advance i b).2.inFlight (p.advance i b).1 := by
  cases p with
  | done a => exact h.moved_of_eq nofun h.nests hb rfl
  | lookup key next => exact h.moved_of_eq nofun (h.nests _) hb (b.inFlight_lookup key)
  | store key text ttl next =>
    exact h.moved_of_eq nofun (h.nests _) hb (b.inFlight_store key text ttl)
  | ask statement next => exact h.moved_of_eq nofun (h.nests _) hb rfl
  | enter key next => exact h.moved_enter hrule hb
  | leave key next => exact h.moved_leave hb (hnodup key)
  | compute next => exact h.moved_of_eq nofun h.nests hb rfl

end Placed

/-! ## Runs -/

namespace Crew

/-- What programs can come to when they take steps in any order, while anything but their locks may
change beside them: time passes, entries of the cache go, and it or the database fails or comes
back. -/
inductive Reaches (c : Crew α) : Crew α → Prop
  | start : Reaches c c
  | step {d : Crew α} (h : Reaches c d) (owner : ℕ) : Reaches c (d.move (.step owner))
  | beside {d : Crew α} (h : Reaches c d) (b : Backend) (hb : b.inFlight = d.backend.inFlight) :
    Reaches c ⟨d.programs, b⟩

theorem Reaches.run {c d : Crew α} (h : c.Reaches d) (moves : List Move) :
    c.Reaches (d.run moves) := by
  induction moves generalizing d with
  | nil => exact h
  | cons m moves ih =>
    refine ih (d := d.move m) ?_
    cases m with
    | step owner => exact h.step owner
    | wait milliseconds => exact h.beside _ rfl

/-- Every program is placed by the rule, and nobody else is in a queue. -/
structure Orderly (rule : String → String → Prop) (c : Crew α) : Prop where
  wellFormed : c.backend.inFlight.WellFormed
  nodup : ∀ key, (c.backend.inFlight.queue key).Nodup
  placed : ∀ i p, c.programs[i]? = some p → ∃ held, Placed rule c.backend.inFlight i held p
  inside : ∀ key, ∀ i ∈ c.backend.inFlight.queue key, i < c.programs.length

namespace Orderly

variable {c d : Crew α}

theorem start (hc : ∀ p ∈ c.programs, p.Nests rule [] []) (hfree : c.backend.inFlight.Free) :
    c.Orderly rule where
  wellFormed := hfree.wellFormed
  nodup key := hfree.queue_eq_nil key ▸ List.nodup_nil
  placed i p hp := by
    refine ⟨[], hc p (List.mem_of_getElem? hp), List.nodup_nil, nofun, fun key hi => ?_⟩
    rw [hfree.queue_eq_nil] at hi
    cases hi
  inside key i hi := by
    rw [hfree.queue_eq_nil] at hi
    cases hi

theorem beside (h : c.Orderly rule) {b : Backend} (hb : b.inFlight = c.backend.inFlight) :
    Orderly rule ⟨c.programs, b⟩ := by
  refine ⟨?_, ?_, ?_, ?_⟩ <;> dsimp only <;> rw [hb]
  · exact h.wellFormed
  · exact h.nodup
  · exact h.placed
  · exact h.inside

theorem step (h : c.Orderly rule) (hrule : ∀ k, ¬rule k k) (i : ℕ) :
    (c.move (.step i)).Orderly rule := by
  rw [move]
  split
  · next p hp =>
    obtain ⟨held, hplaced⟩ := h.placed i p hp
    obtain ⟨hwell, hturned, hmoved⟩ := hplaced.moved hrule h.wellFormed h.nodup
    refine ⟨hwell, fun key => (hturned key).nodup (h.nodup key), fun j q hq => ?_,
      fun key j hj => ?_⟩
    · by_cases hji : j = i
      · subst hji
        rw [List.getElem?_set_self (List.getElem?_eq_some_iff.1 hp).1] at hq
        exact Option.some.inj hq ▸ hmoved
      · rw [List.getElem?_set_ne (Ne.symm hji)] at hq
        obtain ⟨held', hplaced'⟩ := h.placed j q hq
        exact ⟨held', hplaced'.of_ne hji hturned⟩
    · rw [List.length_set]
      by_cases hji : j = i
      · exact hji ▸ (List.getElem?_eq_some_iff.1 hp).1
      · exact h.inside key j (((hturned key).mem_iff hji).1 hj)
  · exact h

theorem of_reaches (h : c.Orderly rule) (hrule : ∀ k, ¬rule k k) (hd : c.Reaches d) :
    d.Orderly rule := by
  induction hd with
  | start => exact h
  | step _ owner ih => exact ih.step hrule owner
  | beside _ b hb ih => exact ih.beside hb

end Orderly

/-! ## Waiting -/

/-- The program at place `i` is not done. -/
def Unfinished (c : Crew α) (i : ℕ) : Prop :=
  ∃ p, c.programs[i]? = some p ∧ p.result? = none

/-- The program at place `i` asks for the lock of the key, which another one holds. -/
def WaitsFor (c : Crew α) (i : ℕ) (key : String) : Prop :=
  ∃ next j, c.programs[i]? = some (.enter key next) ∧ j ≠ i ∧
    c.backend.inFlight.holds j key = true

namespace Orderly

variable {c : Crew α} {i : ℕ} {key : String}

/-- Who holds a lock is at work under it, or has just been let in. -/
theorem exists_holder (h : c.Orderly rule) (hi : c.backend.inFlight.holds i key = true) :
    c.Unfinished i ∧ ∃ p held, c.programs[i]? = some p ∧ p.Nests rule held [] ∧
      (key ∈ held ∨ ∃ next, p = .enter key next) := by
  have hqueue := List.mem_of_mem_head? ((InFlight.holds_iff h.wellFormed).1 hi)
  obtain ⟨p, hp⟩ : ∃ p, c.programs[i]? = some p :=
    ⟨_, List.getElem?_eq_getElem (h.inside key i hqueue)⟩
  obtain ⟨held, hplaced⟩ := h.placed i p hp
  have hheld := hplaced.queued key hqueue
  refine ⟨⟨p, hp, ?_⟩, p, held, hp, hplaced.nests, hheld⟩
  rcases hdone : p.result? with _ | a
  · rfl
  rw [Program.eq_done_of_result? hdone] at hplaced hheld
  rcases hheld with hmem | ⟨_, heq⟩
  · obtain rfl : held = [] := hplaced.nests
    cases hmem
  · cases heq

/-- Where locks cannot be asked for one beside another for ever, some program that is not done waits
for nobody. -/
theorem exists_not_waits (h : c.Orderly rule)
    (hrule : WellFounded fun asked held => rule held asked) (hc : ∃ i, c.Unfinished i) :
    ∃ i, c.Unfinished i ∧ ¬∃ key, c.WaitsFor i key := by
  obtain ⟨i, hi⟩ := hc
  by_cases hwaits : ∃ key, c.WaitsFor i key
  swap
  · exact ⟨i, hi, hwaits⟩
  obtain ⟨key, hkey⟩ := hwaits
  -- No lock that is waited for may be asked for beside the last one, so its holder waits for none.
  obtain ⟨last, ⟨i, next, j, -, -, hj⟩, hlast⟩ :=
    hrule.has_min {key | ∃ i, c.WaitsFor i key} ⟨key, i, hkey⟩
  obtain ⟨hunfinished, p, held, hp, hnests, hheld⟩ := h.exists_holder hj
  refine ⟨j, hunfinished, ?_⟩
  rintro ⟨other, hother⟩
  obtain ⟨next', k, hp', hkj, hk⟩ := hother
  obtain rfl := Option.some.inj (hp.symm.trans hp')
  rcases hheld with hmem | ⟨_, heq⟩
  · exact hlast other ⟨j, next', k, hp', hkj, hk⟩ (hnests.1 last hmem)
  · obtain rfl := (Program.enter.inj heq).1
    rw [InFlight.holds_iff h.wellFormed] at hj hk
    exact hkj (Option.some.inj (hk.symm.trans hj))

end Orderly

end Crew

/-! ## Finishing -/

namespace Program

/-- The first program is what may be left of the second one after a step. -/
inductive Follows : Program α → Program α → Prop
  | lookup (key next) (reply : Reply (Option String)) : Follows (next reply) (.lookup key next)
  | store (key text ttl next) (reply : Reply Unit) :
    Follows (next reply) (.store key text ttl next)
  | ask (statement next) (reply : Except Fault (List Row)) :
    Follows (next reply) (.ask statement next)
  | enter (key next) : Follows next (.enter key next)
  | leave (key next) : Follows next (.leave key next)
  | compute (next) : Follows next (.compute next)

theorem wellFounded_follows : WellFounded (Follows : Program α → Program α → Prop) := by
  refine ⟨fun p => ?_⟩
  induction p with
  | done a => exact ⟨_, nofun⟩
  | lookup key next ih => exact ⟨_, fun | _, .lookup _ _ reply => ih reply⟩
  | store key text ttl next ih => exact ⟨_, fun | _, .store _ _ _ _ reply => ih reply⟩
  | ask statement next ih => exact ⟨_, fun | _, .ask _ _ reply => ih reply⟩
  | enter key next ih => exact ⟨_, fun | _, .enter _ _ => ih⟩
  | leave key next ih => exact ⟨_, fun | _, .leave _ _ => ih⟩
  | compute next ih => exact ⟨_, fun | _, .compute _ => ih⟩

end Program

theorem cutExpand_set {β : Type} {r : β → β → Prop} {l : List β} {i : ℕ} {p q : β}
    (hp : l[i]? = some p) (hq : r q p) :
    Relation.CutExpand r (l.set i q : Multiset β) (l : Multiset β) := by
  obtain ⟨hi, rfl⟩ := List.getElem?_eq_some_iff.1 hp
  obtain ⟨before, after, hl, -, hset⟩ : ∃ before after, l = before ++ l[i] :: after ∧
      before.length = i ∧ l.set i q = before ++ q :: after := List.exists_of_set hi
  have hnew : (l.set i q : Multiset β) = {q} + (before ++ after : List β) :=
    hset ▸ Multiset.coe_eq_coe.2 List.perm_middle
  have hold : (l : Multiset β) = {l[i]} + (before ++ after : List β) :=
    (congrArg _ hl).trans (Multiset.coe_eq_coe.2 List.perm_middle)
  rw [hnew, hold]
  exact Relation.cutExpand_single_add hq _

namespace Crew.Orderly

variable {c : Crew α}

/-- A program that waits for nobody goes on with its next step. -/
theorem follows_of_not_waits (h : c.Orderly rule) {i : ℕ} {p : Program α}
    (hp : c.programs[i]? = some p) (hunfinished : p.result? = none)
    (hwaits : ¬∃ key, c.WaitsFor i key) : (p.advance i c.backend).1.Follows p := by
  cases p with
  | done a => cases hunfinished
  | lookup key next => exact .lookup key next _
  | store key text ttl next => exact .store key text ttl next _
  | ask statement next => exact .ask statement next _
  | enter key next =>
    obtain ⟨b', -, hmem, hturned, -, hadvance⟩ :=
      Program.exists_advance_enter h.wellFormed i key next
    have halone : ∀ j, (c.backend.inFlight.queue key).head? = some j → j = i := by
      intro j hj
      by_contra hji
      exact hwaits ⟨key, next, j, hp, hji, (InFlight.holds_iff h.wellFormed).2 hj⟩
    rw [hadvance, if_pos (hturned.head?_eq (h.nodup key) hmem halone)]
    exact .enter key next
  | leave key next => exact .leave key next
  | compute next => exact .compute next

/-- From wherever they are the programs can all finish. -/
theorem exists_run_finished (h : c.Orderly rule)
    (hrule : WellFounded fun asked held => rule held asked) :
    ∃ moves, ∀ i, ¬(c.run moves).Unfinished i := by
  induction hprograms : (c.programs : Multiset (Program α)) using
    Program.wellFounded_follows.cutExpand.induction generalizing c with
  | _ programs ih =>
    by_cases hc : ∃ i, c.Unfinished i
    swap
    · exact ⟨[], not_exists.1 hc⟩
    obtain ⟨i, ⟨p, hp, hunfinished⟩, hwaits⟩ := h.exists_not_waits hrule hc
    have hfollows := h.follows_of_not_waits hp hunfinished hwaits
    have hmove : (c.move (.step i)).programs = c.programs.set i (p.advance i c.backend).1 := by
      rw [move, hp]
    have hcut : Relation.CutExpand Program.Follows
        ((c.move (.step i)).programs : Multiset (Program α)) programs := by
      rw [hmove, ← hprograms]
      exact cutExpand_set hp hfollows
    obtain ⟨moves, hmoves⟩ := ih _ hcut (h.step hrule.irrefl.irrefl i) rfl
    exact ⟨.step i :: moves, hmoves⟩

end Crew.Orderly

end Bourse
