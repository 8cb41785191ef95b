import Mathlib.Data.List.Nodup

/-!
# Sorted lists without repetitions

Dropping the repetitions of a sorted list keeps its members (`mem_eraseReps`) and leaves it strictly
sorted (`pairwise_eraseReps`), and a strictly sorted list is settled by its members
(`eq_of_pairwise`), so sorting and dropping repetitions give the one such list of the members
(`eraseReps_mergeSort_eq`). Of the members of a list with distinct keys one has a given key, if any
(`filter_key_eq`, `filter_key_eq_toList`), and sorting by a comparison of the keys leaves each key
less than the next (`pairwise_mergeSort_key`), in whatever order the members come
(`mergeSort_key_perm`).
-/

namespace Bourse

open Std (TransCmp OrientedCmp ReflCmp LawfulEqCmp)

variable {α : Type} [BEq α]

theorem eraseRepsBy_loop : ∀ (rest : List α) (a : α) (acc : List α),
    List.eraseRepsBy.loop (· == ·) a rest acc
      = acc.reverse ++ List.eraseRepsBy.loop (· == ·) a rest []
  | [], a, acc => by simp [List.eraseRepsBy.loop]
  | b :: rest, a, acc => by
    simp only [List.eraseRepsBy.loop]
    cases a == b with
    | true => exact eraseRepsBy_loop rest a acc
    | false =>
      dsimp only
      rw [eraseRepsBy_loop rest b (a :: acc), eraseRepsBy_loop rest b [a]]
      simp

variable [LawfulBEq α]

theorem eraseReps_cons_cons (a b : α) (rest : List α) :
    (a :: b :: rest).eraseReps
      = if a == b then (b :: rest).eraseReps else a :: (b :: rest).eraseReps := by
  change List.eraseRepsBy.loop (· == ·) a (b :: rest) [] = _
  rw [List.eraseRepsBy.loop]
  split_ifs with h
  · obtain rfl := eq_of_beq h
    rw [h]
    rfl
  · rw [Bool.eq_false_iff.2 h]
    exact eraseRepsBy_loop rest b [a]

theorem mem_eraseReps {x : α} : ∀ {l : List α}, x ∈ l.eraseReps ↔ x ∈ l
  | [] => Iff.rfl
  | [a] => Iff.rfl
  | a :: b :: rest => by
    rw [eraseReps_cons_cons]
    split_ifs with h
    · rw [mem_eraseReps, eq_of_beq h]
      simp
    · rw [List.mem_cons, mem_eraseReps, ← List.mem_cons]

/-- A sorted list is strictly sorted once its repetitions are dropped. -/
theorem pairwise_eraseReps {r : α → α → Prop} (hr : ∀ {a b}, r a b → r b a → a = b) :
    ∀ {l : List α}, l.Pairwise r → l.eraseReps.Pairwise fun a b => r a b ∧ a ≠ b
  | [], _ => List.Pairwise.nil
  | [a], _ => List.pairwise_singleton _ a
  | a :: b :: rest, h => by
    rw [eraseReps_cons_cons]
    have ih := pairwise_eraseReps hr h.of_cons
    split_ifs with hab
    · exact ih
    · refine List.Pairwise.cons ?_ ih
      intro c hc
      have hac := List.rel_of_pairwise_cons h (mem_eraseReps.1 hc)
      refine ⟨hac, ?_⟩
      rintro rfl
      rcases List.mem_cons.1 (mem_eraseReps.1 hc) with rfl | hmem
      · exact hab (beq_self_eq_true _)
      · have hb := List.rel_of_pairwise_cons h.of_cons hmem
        exact hab (beq_iff_eq.2 (hr (List.rel_of_pairwise_cons h List.mem_cons_self) hb))

omit [BEq α] [LawfulBEq α] in
/-- Two strictly sorted lists with the same members are equal. -/
theorem eq_of_pairwise {r : α → α → Prop} (hr : ∀ {a b}, r a b → ¬r b a) {l m : List α}
    (hl : l.Pairwise r) (hm : m.Pairwise r) (h : ∀ x, x ∈ l ↔ x ∈ m) : l = m := by
  have hne : ∀ {a b}, r a b → a ≠ b := by
    rintro a b hab rfl
    exact hr hab hab
  have hperm := (List.perm_ext_iff_of_nodup (hl.imp hne) (hm.imp hne)).2 h
  exact hperm.eq_of_pairwise (fun a b _ _ hab hba => absurd hba (hr hab)) hl hm

/-- What is left of a sorted list without its repetitions is settled by its members. -/
theorem eraseReps_mergeSort_eq {le : α → α → Bool}
    (trans : ∀ a b c, le a b = true → le b c = true → le a c = true)
    (total : ∀ a b, (le a b || le b a) = true)
    (antisymm : ∀ {a b}, le a b = true → le b a = true → a = b) {l m : List α}
    (hm : m.Pairwise fun a b => le a b = true ∧ a ≠ b) (h : ∀ x, x ∈ l ↔ x ∈ m) :
    (l.mergeSort le).eraseReps = m := by
  refine eq_of_pairwise (fun hab hba => hab.2 (antisymm hab.1 hba.1))
    (pairwise_eraseReps antisymm (List.pairwise_mergeSort trans total l)) hm fun x => ?_
  rw [mem_eraseReps, List.mem_mergeSort, h]

/-- Sorting and dropping repetitions gives the same list for the same members. -/
theorem eraseReps_mergeSort_congr {le : α → α → Bool}
    (trans : ∀ a b c, le a b = true → le b c = true → le a c = true)
    (total : ∀ a b, (le a b || le b a) = true)
    (antisymm : ∀ {a b}, le a b = true → le b a = true → a = b) {l m : List α}
    (h : ∀ x, x ∈ l ↔ x ∈ m) : (l.mergeSort le).eraseReps = (m.mergeSort le).eraseReps := by
  have hm := pairwise_eraseReps antisymm (List.pairwise_mergeSort trans total m)
  refine eraseReps_mergeSort_eq trans total antisymm hm fun x => ?_
  rw [h, mem_eraseReps, List.mem_mergeSort]

theorem nodup_eraseDups : ∀ l : List α, l.eraseDups.Nodup
  | [] => List.nodup_nil
  | a :: l => by
    rw [List.eraseDups_cons, List.nodup_cons]
    refine ⟨fun h => ?_, nodup_eraseDups _⟩
    simpa using (List.mem_filter.1 (List.mem_eraseDups.1 h)).2
termination_by l => l.length
decreasing_by
  rw [List.length_cons, Nat.lt_succ_iff]
  exact List.length_filter_le _ l

theorem eraseDups_concat (l : List α) (a : α) :
    (l ++ [a]).eraseDups = if a ∈ l then l.eraseDups else l.eraseDups ++ [a] := by
  rw [List.eraseDups_append]
  split_ifs with ha
  · simp [List.removeAll, ha]
  · simp [List.removeAll, ha, List.eraseDups_cons]

omit [BEq α] [LawfulBEq α] in
/-- In a list whose members have distinct keys each of them is the only one with its key. -/
theorem filter_key_eq [DecidableEq α] {β : Type} {key : β → α} {x : β} : ∀ {l : List β},
    (l.map key).Nodup → x ∈ l → l.filter (fun y => key y = key x) = [x]
  | [], _, hx => absurd hx List.not_mem_nil
  | y :: l, hl, hx => by
    rw [List.map_cons, List.nodup_cons] at hl
    rcases List.mem_cons.1 hx with rfl | hmem
    · rw [List.filter_cons_of_pos (by simp), List.filter_eq_nil_iff.2 fun z hz => ?_]
      simp only [decide_eq_true_eq]
      exact fun h => hl.1 (h ▸ List.mem_map_of_mem hz)
    · rw [List.filter_cons_of_neg, filter_key_eq hl.2 hmem]
      simp only [decide_eq_true_eq]
      exact fun h => hl.1 (h ▸ List.mem_map_of_mem hmem)

omit [BEq α] [LawfulBEq α] in
/-- Among members with distinct keys the first one with a key is the only one. -/
theorem find?_key_eq_some [DecidableEq α] {β : Type} {key : β → α} {l : List β}
    (h : (l.map key).Nodup) {k : α} {x : β} :
    (l.find? fun y => key y = k) = some x ↔ x ∈ l ∧ key x = k := by
  constructor
  · intro hx
    exact ⟨List.mem_of_find?_eq_some hx, by simpa using List.find?_some hx⟩
  · rintro ⟨hx, rfl⟩
    cases hfind : l.find? fun y => key y = key x with
    | none => exact absurd (List.find?_eq_none.1 hfind x hx) (by simp)
    | some y =>
      have hkey : key y = key x := by simpa using List.find?_some hfind
      rw [List.inj_on_of_nodup_map h (List.mem_of_find?_eq_some hfind) hx hkey]

omit [BEq α] [LawfulBEq α] in
/-- Among members with distinct keys those with a key are the one that is found, if any. -/
theorem filter_key_eq_toList [DecidableEq α] {β : Type} {key : β → α} {l : List β}
    (h : (l.map key).Nodup) (k : α) :
    l.filter (fun y => key y = k) = (l.find? fun y => key y = k).toList := by
  cases hfind : l.find? fun y => key y = k with
  | none => exact List.filter_eq_nil_iff.2 (List.find?_eq_none.1 hfind)
  | some x =>
    obtain ⟨hx, rfl⟩ := (find?_key_eq_some h).1 hfind
    exact filter_key_eq h hx

omit [BEq α] [LawfulBEq α] in
/-- What is made of some members has some of their keys, when each keeps its member's key. -/
theorem map_filterMap_sublist {β γ : Type} {f : β → Option γ} {key : γ → α} {key' : β → α}
    (h : ∀ b c, f b = some c → key c = key' b) : ∀ l : List β,
      ((l.filterMap f).map key).Sublist (l.map key')
  | [] => List.Sublist.slnil
  | b :: l => by
    rw [List.filterMap_cons, List.map_cons]
    cases hb : f b with
    | none => exact (map_filterMap_sublist h l).cons _
    | some c =>
      rw [← h b c hb]
      exact (map_filterMap_sublist h l).cons_cons _

omit [BEq α] [LawfulBEq α] in
/-- What is made of the members of two lists is the same when they differ only in members that
nothing is made of. -/
theorem filterMap_perm_of_nodup {β : Type} {f : α → Option β} {l m : List α} (hl : l.Nodup)
    (hm : m.Nodup) (h : ∀ a, (f a).isSome = true → (a ∈ l ↔ a ∈ m)) :
    (l.filterMap f).Perm (m.filterMap f) := by
  have hfilter : ∀ k : List α, (k.filter fun a => (f a).isSome).filterMap f = k.filterMap f := by
    intro k
    rw [List.filterMap_filter]
    refine List.filterMap_congr fun a _ => ?_
    cases f a <;> rfl
  rw [← hfilter l, ← hfilter m]
  refine ((List.perm_ext_iff_of_nodup (hl.filter _) (hm.filter _)).2 fun a => ?_).filterMap f
  simp only [List.mem_filter]
  exact and_congr_left (h a)

omit [BEq α] [LawfulBEq α] in
/-- The last member with a property is the same in whatever order, when there is no other one. -/
theorem findRev?_perm {p : α → Bool} {l m : List α} (h : l.Perm m)
    (hunique : ∀ a ∈ l, ∀ b ∈ l, p a = true → p b = true → a = b) :
    l.findRev? p = m.findRev? p := by
  have hfound : ∀ {k : List α} {a}, k.findRev? p = some a → a ∈ k ∧ p a = true := by
    intro k a ha
    rw [List.findRev?_eq_find?_reverse] at ha
    exact ⟨List.mem_reverse.1 (List.mem_of_find?_eq_some ha), List.find?_some ha⟩
  have hnone : ∀ {k : List α}, k.findRev? p = none ↔ ∀ a ∈ k, ¬p a = true := by
    intro k
    simp only [List.findRev?_eq_find?_reverse, List.find?_eq_none, List.mem_reverse]
  cases hm : m.findRev? p with
  | none =>
    rw [hnone] at hm ⊢
    exact fun a ha => hm a (h.mem_iff.1 ha)
  | some b =>
    obtain ⟨hb, hpb⟩ := hfound hm
    cases hl : l.findRev? p with
    | none => exact absurd hpb (hnone.1 hl b (h.mem_iff.2 hb))
    | some a =>
      obtain ⟨ha, hpa⟩ := hfound hl
      exact congrArg some (hunique a ha b (h.mem_iff.2 hb) hpa hpb)

section Comparisons

omit [BEq α] [LawfulBEq α]

variable {cmp : α → α → Ordering}

theorem isLE_total [OrientedCmp cmp] (a b : α) :
    ((cmp a b).isLE || (cmp b a).isLE) = true := by
  have hswap : cmp a b = (cmp b a).swap := OrientedCmp.eq_swap
  rw [hswap]
  cases cmp b a <;> rfl

variable [LawfulEqCmp cmp]

theorem lt_of_isLE_of_ne {a b : α} (h : (cmp a b).isLE) (hne : a ≠ b) : cmp a b = .lt :=
  (Ordering.isLE_iff_eq_lt_or_eq_eq.1 h).resolve_right fun heq =>
    hne (LawfulEqCmp.eq_of_compare heq)

variable [TransCmp cmp]

theorem pairwise_eraseReps_mergeSort [BEq α] [LawfulBEq α] (l : List α) :
    (l.mergeSort fun a b => (cmp a b).isLE).eraseReps.Pairwise (cmp · · = .lt) := by
  have hsorted : (l.mergeSort fun a b => (cmp a b).isLE).Pairwise fun a b => (cmp a b).isLE :=
    List.pairwise_mergeSort (fun _ _ _ => TransCmp.isLE_trans) isLE_total l
  have hantisymm : ∀ {a b : α}, (cmp a b).isLE = true → (cmp b a).isLE = true → a = b :=
    fun hab hba => LawfulEqCmp.eq_of_compare (OrientedCmp.isLE_antisymm hab hba)
  exact (pairwise_eraseReps hantisymm hsorted).imp fun hab => lt_of_isLE_of_ne hab.1 hab.2

theorem nodup_eraseReps_mergeSort [BEq α] [LawfulBEq α] (l : List α) :
    (l.mergeSort fun a b => (cmp a b).isLE).eraseReps.Nodup := by
  refine (pairwise_eraseReps_mergeSort l).imp ?_
  rintro a _ hlt rfl
  have heq : cmp a a = .eq := ReflCmp.compare_self
  rw [heq] at hlt
  cases hlt

/-- Sorting by keys of which no two are the same leaves each key less than the next. -/
theorem pairwise_mergeSort_key {β : Type} {key : β → α} {l : List β} (h : (l.map key).Nodup) :
    (l.mergeSort fun a b => (cmp (key a) (key b)).isLE).Pairwise
      fun a b => cmp (key a) (key b) = .lt := by
  have hsorted : (l.mergeSort fun a b => (cmp (key a) (key b)).isLE).Pairwise
      fun a b => (cmp (key a) (key b)).isLE :=
    List.pairwise_mergeSort (fun _ _ _ => TransCmp.isLE_trans)
      (fun a b => isLE_total (key a) (key b)) l
  have hkeys := (List.mergeSort_perm l fun a b => (cmp (key a) (key b)).isLE).map key
  have hne := List.pairwise_map.1 (hkeys.nodup_iff.2 h)
  exact (hsorted.and hne).imp fun hab => lt_of_isLE_of_ne hab.1 hab.2

/-- Sorting by keys of which no two are the same gives one list for every order. -/
theorem mergeSort_key_perm {β : Type} {key : β → α} {l m : List β} (h : (l.map key).Nodup)
    (hperm : l.Perm m) : (l.mergeSort fun a b => (cmp (key a) (key b)).isLE)
      = m.mergeSort fun a b => (cmp (key a) (key b)).isLE := by
  have hasymm : ∀ {a b : β}, cmp (key a) (key b) = .lt → ¬cmp (key b) (key a) = .lt := by
    intro a b hab hba
    have hswap : cmp (key b) (key a) = (cmp (key a) (key b)).swap := OrientedCmp.eq_swap
    rw [hswap, hab] at hba
    cases hba
  refine eq_of_pairwise hasymm (pairwise_mergeSort_key h)
    (pairwise_mergeSort_key ((hperm.map key).nodup_iff.1 h)) fun x => ?_
  rw [List.mem_mergeSort, List.mem_mergeSort, hperm.mem_iff]

/-- Where keys may be the same, sorting still puts the same key at each place. -/
theorem map_mergeSort_perm {β : Type} {key : β → α} {l m : List β} (hperm : l.Perm m) :
    (l.mergeSort fun a b => (cmp (key a) (key b)).isLE).map key
      = (m.mergeSort fun a b => (cmp (key a) (key b)).isLE).map key := by
  have hsorted : ∀ k : List β, ((k.mergeSort fun a b => (cmp (key a) (key b)).isLE).map
      key).Pairwise fun a b => (cmp a b).isLE := fun k =>
    List.pairwise_map.2 (List.pairwise_mergeSort (fun _ _ _ => TransCmp.isLE_trans)
      (fun a b => isLE_total (key a) (key b)) k)
  refine List.Perm.eq_of_pairwise (fun a b _ _ hab hba => ?_) (hsorted l) (hsorted m) ?_
  · exact LawfulEqCmp.eq_of_compare (OrientedCmp.isLE_antisymm hab hba)
  · exact (((List.mergeSort_perm l _).trans hperm).trans (List.mergeSort_perm m _).symm).map key

end Comparisons

end Bourse
