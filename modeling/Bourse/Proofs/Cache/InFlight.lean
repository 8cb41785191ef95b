import Mathlib.Data.List.Nodup
import Bourse.Cache.InFlight

/-!
# Queues at a key

The handles on the lock of a key make a queue of their owners (`queue`). A request that takes a
handle goes to the end of the queue (`queue_join`), one that gives it back goes out of it
(`queue_leave`), and the others stay where they are (`Turned`). The first one holds the lock
(`holds_iff`), and the table knows a key as long as its queue is not empty (`lookup_eq_none_iff`).
-/

namespace Bourse

/-- How the queue at a key changes when the request `i` takes a step. -/
inductive Turned (i : ℕ) (queue : List ℕ) : List ℕ → Prop
  | same : Turned i queue queue
  | joined (h : i ∉ queue) : Turned i queue (queue ++ [i])
  | left (h : queue.head? = some i) : Turned i queue (queue.erase i)

namespace Turned

variable {i j : ℕ} {queue queue' : List ℕ}

theorem mem_iff (h : Turned i queue queue') (hj : j ≠ i) : j ∈ queue' ↔ j ∈ queue := by
  cases h with
  | same => rfl
  | joined hi => simp [hj]
  | left hi => exact List.mem_erase_of_ne hj

theorem head?_of_ne (h : Turned i queue queue') (hj : j ≠ i) (hhead : queue.head? = some j) :
    queue'.head? = some j := by
  cases h with
  | same => exact hhead
  | joined hi => rw [List.head?_append, hhead, Option.some_or]
  | left hi =>
    rw [hi] at hhead
    exact absurd (Option.some.inj hhead).symm hj

theorem nodup (h : Turned i queue queue') (hnodup : queue.Nodup) : queue'.Nodup := by
  cases h with
  | same => exact hnodup
  | joined hi =>
    rw [← List.concat_eq_append]
    exact hnodup.concat hi
  | left hi => exact hnodup.erase i

/-- Who is in a queue with nobody else at its head is the first. -/
theorem head?_eq (h : Turned i queue queue') (hnodup : queue.Nodup) (hi : i ∈ queue')
    (halone : ∀ j, queue.head? = some j → j = i) : queue'.head? = some i := by
  cases h with
  | same =>
    cases queue with
    | nil => cases hi
    | cons j queue => exact congrArg some (halone j rfl)
  | joined hnot =>
    cases queue with
    | nil => rfl
    | cons j queue => exact absurd (halone j rfl ▸ List.mem_cons_self) hnot
  | left hhead => exact absurd hi hnodup.not_mem_erase

end Turned

namespace InFlight

variable {s : InFlight} {owner : ℕ} {key other : String}

/-- The owners of the handles on a key's lock, in the order of their arrival. -/
def queue (s : InFlight) (key : String) : List ℕ :=
  (s.handles.filter (·.key == key)).map (·.owner)

theorem mem_queue : owner ∈ s.queue key ↔ ∃ h ∈ s.handles, h.key = key ∧ h.owner = owner := by
  simp only [queue, List.mem_map, List.mem_filter, beq_iff_eq, and_assoc]

theorem of_handle? {h : Handle} (hh : s.handle? owner key = some h) :
    h ∈ s.handles ∧ h.owner = owner ∧ h.key = key := by
  have hp := List.find?_some hh
  simp only [Bool.and_eq_true, beq_iff_eq] at hp
  exact ⟨List.mem_of_find?_eq_some hh, hp⟩

theorem handle?_isSome : (s.handle? owner key).isSome ↔ owner ∈ s.queue key := by
  simp only [handle?, List.find?_isSome, mem_queue, Bool.and_eq_true, beq_iff_eq]
  exact exists_congr fun h => and_congr_right fun _ => and_comm

/-- The lock of every handle is in the table, every lock of the table has a handle, and no two keys
share a lock. -/
structure WellFormed (s : InFlight) : Prop where
  named : ∀ h ∈ s.handles, s.locks.lookup h.key = some h.lock
  used : ∀ {key lock}, s.locks.lookup key = some lock → s.queue key ≠ []
  apart : ∀ {key other lock}, s.locks.lookup key = some lock → s.locks.lookup other = some lock →
    key = other
  below : ∀ {key lock}, s.locks.lookup key = some lock → lock < s.fresh

namespace WellFormed

theorem eq_of_key (hs : s.WellFormed) {g h : Handle} (hg : g ∈ s.handles) (hh : h ∈ s.handles)
    (hkey : g.key = h.key) (howner : g.owner = h.owner) : g = h := by
  have hlock := hs.named g hg
  rw [hkey, hs.named h hh] at hlock
  cases g
  cases h
  simp_all

theorem lock_eq_iff (hs : s.WellFormed) {g h : Handle} (hg : g ∈ s.handles) (hh : h ∈ s.handles) :
    g.lock = h.lock ↔ g.key = h.key := by
  have hlg := hs.named g hg
  have hlh := hs.named h hh
  refine ⟨fun hlock => hs.apart hlg (hlock ▸ hlh), fun hkey => ?_⟩
  rw [hkey, hlh] at hlg
  exact (Option.some.inj hlg).symm

end WellFormed

/-- The table knows the lock of a key as long as there are handles on it. -/
theorem lookup_eq_none_iff (hs : s.WellFormed) :
    s.locks.lookup key = none ↔ s.queue key = [] := by
  constructor
  · intro hnone
    rw [List.eq_nil_iff_forall_not_mem]
    intro owner howner
    obtain ⟨h, hh, rfl, -⟩ := mem_queue.1 howner
    rw [hs.named h hh] at hnone
    cases hnone
  · intro hnil
    rw [Option.eq_none_iff_forall_not_mem]
    exact fun lock hlock => hs.used hlock hnil

/-- The first of the queue holds the lock. -/
theorem holds_iff (hs : s.WellFormed) :
    s.holds owner key = true ↔ (s.queue key).head? = some owner := by
  have hfirst : ∀ h ∈ s.handles, h.key = key →
      s.handles.find? (·.lock == h.lock) = (s.handles.filter (·.key == key)).head? := by
    intro h hh hkey
    rw [← List.head?_filter]
    refine congrArg List.head? (List.filter_congr fun g hg => ?_)
    rw [Bool.eq_iff_iff, beq_iff_eq, beq_iff_eq, hs.lock_eq_iff hg hh, hkey]
  rw [queue, List.head?_map, Option.map_eq_some_iff, holds]
  constructor
  · intro hholds
    split at hholds
    · next h hh =>
      obtain ⟨hmem, howner, hkey⟩ := of_handle? hh
      rw [hfirst h hmem hkey] at hholds
      exact ⟨h, eq_of_beq hholds, howner⟩
    · cases hholds
  · rintro ⟨g, hg, howner⟩
    have hmem := List.mem_filter.1 (List.mem_of_mem_head? hg)
    have hkey : g.key = key := eq_of_beq hmem.2
    obtain ⟨h, hh⟩ := Option.isSome_iff_exists.1
      (handle?_isSome.2 (mem_queue.2 ⟨g, hmem.1, hkey, howner⟩))
    obtain ⟨hmem', howner', hkey'⟩ := of_handle? hh
    rw [hs.eq_of_key hmem.1 hmem' (hkey.trans hkey'.symm) (howner.trans howner'.symm)] at hg
    simp only [hh, hfirst h hmem' hkey', hg, BEq.rfl]

theorem queue_join (s : InFlight) (owner : ℕ) (key other : String) :
    (s.join owner key).queue other
      = if other = key then s.queue key ++ [owner] else s.queue other := by
  have hhandles : ∃ lock, (s.join owner key).handles = s.handles ++ [⟨key, lock, owner⟩] := by
    unfold join
    split
    · exact ⟨_, rfl⟩
    · exact ⟨_, rfl⟩
  obtain ⟨lock, hhandles⟩ := hhandles
  rw [queue, hhandles, List.filter_append, List.map_append]
  split_ifs with h
  · rw [h, List.filter_cons_of_pos (by simp)]
    rfl
  · rw [List.filter_cons_of_neg (by simpa using Ne.symm h), List.filter_nil, List.map_nil,
      List.append_nil, queue]

theorem turned_join (h : owner ∉ s.queue key) (other : String) :
    Turned owner (s.queue other) ((s.join owner key).queue other) := by
  rw [queue_join]
  split_ifs with hother
  · rw [hother]
    exact .joined h
  · exact .same

namespace WellFormed

theorem join_known (hs : s.WellFormed) {lock : ℕ} (hlock : s.locks.lookup key = some lock)
    (owner : ℕ) : (s.join owner key).WellFormed := by
  have hjoin : s.join owner key = { s with handles := s.handles ++ [⟨key, lock, owner⟩] } := by
    rw [InFlight.join, hlock]
  have hqueue := queue_join s owner key
  rw [hjoin] at hqueue ⊢
  refine ⟨fun h hh => ?_, fun {k l} hl => ?_, hs.apart, hs.below⟩
  · rcases List.mem_append.1 hh with hh | hh
    · exact hs.named h hh
    · obtain rfl := List.mem_singleton.1 hh
      exact hlock
  · rw [hqueue]
    split_ifs
    · exact List.append_ne_nil_of_right_ne_nil _ (List.cons_ne_nil _ _)
    · exact hs.used hl

/-- A new lock is none of those in the table. -/
theorem join_new (hs : s.WellFormed) (hnone : s.locks.lookup key = none) (owner : ℕ) :
    (s.join owner key).WellFormed := by
  have hjoin : s.join owner key =
      ⟨(key, s.fresh) :: s.locks, s.handles ++ [⟨key, s.fresh, owner⟩], s.fresh + 1⟩ := by
    rw [InFlight.join, hnone]
  have hlookup : ∀ k, ((key, s.fresh) :: s.locks).lookup k
      = if k = key then some s.fresh else s.locks.lookup k := by
    intro k
    rw [List.lookup_cons]
    split_ifs with h
    · rw [h, BEq.rfl]
    · rw [beq_false_of_ne h]
  have hqueue := queue_join s owner key
  rw [hjoin] at hqueue ⊢
  refine ⟨fun h hh => ?named, fun {k l} hl => ?used, fun {k k' l} hl hl' => ?apart,
    fun {k l} hl => ?below⟩
  case named =>
    rcases List.mem_append.1 hh with hh | hh
    · have hkey : h.key ≠ key := by
        intro hkey
        have hnamed := hs.named h hh
        rw [hkey, hnone] at hnamed
        cases hnamed
      rw [hlookup, if_neg hkey, hs.named h hh]
    · obtain rfl := List.mem_singleton.1 hh
      rw [hlookup, if_pos rfl]
  case used =>
    rw [hqueue]
    rw [hlookup] at hl
    split_ifs at hl ⊢
    · exact List.append_ne_nil_of_right_ne_nil _ (List.cons_ne_nil _ _)
    · exact hs.used hl
  case apart =>
    rw [hlookup] at hl hl'
    split_ifs at hl hl' with h h'
    · rw [h, h']
    · have hbelow := hs.below hl'
      obtain rfl := Option.some.inj hl
      exact absurd hbelow (Nat.lt_irrefl _)
    · have hbelow := hs.below hl
      obtain rfl := Option.some.inj hl'
      exact absurd hbelow (Nat.lt_irrefl _)
    · exact hs.apart hl hl'
  case below =>
    rw [hlookup] at hl
    split_ifs at hl
    · obtain rfl := Option.some.inj hl
      exact Nat.lt_succ_self _
    · exact Nat.lt_succ_of_lt (hs.below hl)

theorem join (hs : s.WellFormed) (owner : ℕ) (key : String) : (s.join owner key).WellFormed := by
  cases hlock : s.locks.lookup key with
  | some lock => exact hs.join_known hlock owner
  | none => exact hs.join_new hlock owner

end WellFormed

theorem filter_erase_handle {h : Handle} (hkey : h.key ≠ other) (handles : List Handle) :
    (handles.erase h).filter (·.key == other) = handles.filter (·.key == other) := by
  rw [← List.erase_filter]
  refine List.erase_of_not_mem fun hmem => ?_
  exact hkey (eq_of_beq (List.mem_filter.1 hmem).2)

theorem map_erase_handle {h : Handle} : ∀ {handles : List Handle},
    (∀ g ∈ handles, g.key = h.key → g.owner = h.owner → g = h) →
      ((handles.erase h).filter (·.key == h.key)).map (·.owner)
        = ((handles.filter (·.key == h.key)).map (·.owner)).erase h.owner
  | [], _ => rfl
  | g :: handles, hall => by
    have ih := map_erase_handle fun g' hg' => hall g' (List.mem_cons_of_mem g hg')
    by_cases hg : g = h
    · subst hg
      rw [List.erase_cons_head, List.filter_cons_of_pos (by simp), List.map_cons,
        List.erase_cons_head]
    · rw [List.erase_cons_tail (by simpa using hg)]
      by_cases hkey : g.key = h.key
      · have howner : g.owner ≠ h.owner := fun howner =>
          hg (hall g List.mem_cons_self hkey howner)
        rw [List.filter_cons_of_pos (by simpa using hkey),
          List.filter_cons_of_pos (by simpa using hkey), List.map_cons, List.map_cons,
          List.erase_cons_tail (by simpa using howner), ih]
      · rw [List.filter_cons_of_neg (by simpa using hkey),
          List.filter_cons_of_neg (by simpa using hkey), ih]

theorem queue_leave (hs : s.WellFormed) (owner : ℕ) (key other : String) :
    (s.leave owner key).queue other
      = if other = key then (s.queue key).erase owner else s.queue other := by
  unfold leave
  split
  · next h hh =>
    obtain ⟨hmem, rfl, rfl⟩ := of_handle? hh
    split_ifs with hother
    · rw [hother]
      exact map_erase_handle fun g hg => hs.eq_of_key hg hmem
    · exact congrArg _ (filter_erase_handle (Ne.symm hother) _)
  · next hnone =>
    split_ifs with hother
    · rw [hother, List.erase_of_not_mem]
      intro howner
      rw [← handle?_isSome, hnone] at howner
      cases howner
    · rfl

theorem turned_leave (hs : s.WellFormed) (h : (s.queue key).head? = some owner) (other : String) :
    Turned owner (s.queue other) ((s.leave owner key).queue other) := by
  rw [queue_leave hs]
  split_ifs with hother
  · rw [hother]
    exact .left h
  · exact .same

theorem lookup_filter_key {β : Type} (key other : String) : ∀ entries : List (String × β),
    (entries.filter (·.1 != key)).lookup other
      = if other = key then none else entries.lookup other
  | [] => by simp
  | e :: entries => by
    have ih := lookup_filter_key key other entries
    by_cases he : e.1 = key
    · rw [List.filter_cons_of_neg (by simpa using he), ih, List.lookup_cons]
      split_ifs with h
      · rfl
      · rw [beq_false_of_ne (he ▸ h)]
    · rw [List.filter_cons_of_pos (by simpa using he), List.lookup_cons, List.lookup_cons, ih]
      split
      · next h => rw [if_neg (eq_of_beq h ▸ he)]
      · rfl

theorem WellFormed.leave (hs : s.WellFormed) (owner : ℕ) (key : String) :
    (s.leave owner key).WellFormed := by
  have hqueue := queue_leave hs owner key
  unfold InFlight.leave at hqueue ⊢
  split at hqueue
  · next h hh =>
    obtain ⟨hmem, rfl, rfl⟩ := of_handle? hh
    dsimp only at hqueue ⊢
    have herased : ∀ g ∈ s.handles.erase h, g ∈ s.handles := fun g hg => List.mem_of_mem_erase hg
    split_ifs at hqueue ⊢ with hlast
    · -- no handle is left on the lock, so that no handle loses its name
      simp only [Bool.and_eq_true, Bool.not_eq_true', List.any_eq_false, beq_iff_eq] at hlast
      have hlookup := fun k => lookup_filter_key h.key k s.locks
      have hsub : ∀ {k l}, (s.locks.filter (·.1 != h.key)).lookup k = some l →
          k ≠ h.key ∧ s.locks.lookup k = some l := by
        intro k l hl
        rw [hlookup] at hl
        split_ifs at hl with hk
        exact ⟨hk, hl⟩
      refine ⟨fun g hg => ?_, fun {k l} hl => ?_, fun {k k' l} hl hl' => ?_, fun {k l} hl => ?_⟩
      · have hkey : g.key ≠ h.key := by
          rw [Ne, ← hs.lock_eq_iff (herased g hg) hmem]
          exact hlast.2 g hg
        rw [hlookup, if_neg hkey, hs.named g (herased g hg)]
      · obtain ⟨hk, hl⟩ := hsub hl
        rw [hqueue, if_neg hk]
        exact hs.used hl
      · exact hs.apart (hsub hl).2 (hsub hl').2
      · exact hs.below (hsub hl).2
    · refine ⟨fun g hg => hs.named g (herased g hg), fun {k l} hl => ?_, hs.apart, hs.below⟩
      by_cases hk : k = h.key
      · simp only [hs.named h hmem, BEq.rfl, Bool.true_and, Bool.not_eq_true', Bool.not_eq_false,
          List.any_eq_true, beq_iff_eq] at hlast
        obtain ⟨g, hg, hlock⟩ := hlast
        have hkey := (hs.lock_eq_iff (herased g hg) hmem).1 hlock
        exact List.ne_nil_of_mem (mem_queue.2 ⟨g, hg, hkey.trans hk.symm, rfl⟩)
      · rw [hqueue, if_neg hk]
        exact hs.used hl
  · exact hs

/-- No key is locked, and nobody waits. -/
structure Free (s : InFlight) : Prop where
  locks : s.locks = []
  handles : s.handles = []

theorem free_empty : empty.Free :=
  ⟨rfl, rfl⟩

theorem Free.queue_eq_nil (h : s.Free) (key : String) : s.queue key = [] := by
  rw [queue, h.handles]
  rfl

theorem Free.wellFormed (h : s.Free) : s.WellFormed where
  named g hg := by
    rw [h.handles] at hg
    cases hg
  used hl := by
    rw [h.locks] at hl
    cases hl
  apart hl := by
    rw [h.locks] at hl
    cases hl
  below hl := by
    rw [h.locks] at hl
    cases hl

theorem wellFormed_empty : empty.WellFormed :=
  free_empty.wellFormed

/-- The table forgets a lock that only one request had. -/
theorem Free.leave_join (h : s.Free) (owner : ℕ) (key : String) :
    ((s.join owner key).leave owner key).Free := by
  obtain ⟨locks, handles, fresh⟩ := s
  obtain ⟨rfl, rfl⟩ := h
  constructor <;> simp [join, leave, handle?]

end InFlight

end Bourse
