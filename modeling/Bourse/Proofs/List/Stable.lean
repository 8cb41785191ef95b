import Mathlib.Data.List.Basic

/-!
# Stable sorting

Members that may stand in either order are left in the order that they come in when a list is sorted
(`filter_mergeSort`), and a list in order is settled by its parts of such members
(`eq_of_filter_eq`). Putting the parts of some keys one after another takes nothing from a part and
adds nothing to it (`filter_flatMap_key`), and lists with the same parts have the same members
(`perm_of_filter_key`).
-/

namespace Bourse

variable {α κ : Type}

/-- Sorting does not move members past each other that may stand in either order. -/
theorem filter_mergeSort {le : α → α → Bool} (trans : ∀ a b c, le a b → le b c → le a c)
    (total : ∀ a b, le a b || le b a) {p : α → Bool} (hp : ∀ a b, p a → p b → le a b)
    (l : List α) : (l.mergeSort le).filter p = l.filter p := by
  have hsorted : (l.filter p).Pairwise fun a b => le a b := by
    refine List.pairwise_of_forall_mem_list fun a ha b hb => ?_
    exact hp a b (List.mem_filter.1 ha).2 (List.mem_filter.1 hb).2
  -- the part is sorted already, so it is still in one piece after the sorting
  have hpart := (List.sublist_mergeSort trans total hsorted List.filter_sublist).filter p
  rw [List.filter_filter] at hpart
  simp only [Bool.and_self] at hpart
  exact (hpart.eq_of_length ((List.mergeSort_perm l le).filter p).length_eq.symm).symm

/-- Lists in order are the same when their parts of members that may stand in either order are. -/
theorem eq_of_filter_eq {r : α → α → Prop} (tied : α → α → Prop) [∀ a, DecidablePred (tied a)]
    (hself : ∀ a, tied a a) (htied : ∀ {a b}, r a b → r b a → tied a b) :
    ∀ {l m : List α}, l.Pairwise r → m.Pairwise r →
      (∀ a, l.filter (tied a) = m.filter (tied a)) → l = m
  | [], [], _, _, _ => rfl
  | [], b :: m, _, _, hfilter => by
    have hb := hfilter b
    simp [hself] at hb
  | a :: l, [], _, _, hfilter => by
    have ha := hfilter a
    simp [hself] at ha
  | a :: l, b :: m, hl, hm, hfilter => by
    have hmem : ∀ c, c ∈ a :: l ↔ c ∈ b :: m := by
      intro c
      have hc := congrArg (c ∈ ·) (hfilter c)
      simpa [hself] using hc
    obtain rfl : a = b := by
      rcases List.mem_cons.1 ((hmem a).1 List.mem_cons_self) with hab | ha
      · exact hab
      · rcases List.mem_cons.1 ((hmem b).2 List.mem_cons_self) with hba | hb
        · exact hba.symm
        · have hheads := hfilter a
          have hab := htied (List.rel_of_pairwise_cons hl hb) (List.rel_of_pairwise_cons hm ha)
          simp only [List.filter_cons, hself, hab, decide_true, if_true] at hheads
          exact (List.cons.inj hheads).1
    refine congrArg (a :: ·) (eq_of_filter_eq tied hself htied hl.of_cons hm.of_cons fun c => ?_)
    have hrest := hfilter c
    by_cases hc : tied c a
    · simp only [List.filter_cons, hc, decide_true, if_true] at hrest
      exact (List.cons.inj hrest).2
    · simpa only [List.filter_cons, hc, decide_false, Bool.false_eq_true, if_false] using hrest

variable [DecidableEq κ] {key : α → κ}

theorem filter_flatMap_of_nodup {part : κ → List α} (hkey : ∀ k, ∀ a ∈ part k, key a = k) (k : κ) :
    ∀ {ks : List κ}, ks.Nodup →
      (ks.flatMap part).filter (key · = k) = if k ∈ ks then part k else []
  | [], _ => rfl
  | k' :: ks, h => by
    have ih := filter_flatMap_of_nodup hkey k h.of_cons
    rw [List.flatMap_cons, List.filter_append, ih]
    by_cases hk : k' = k
    · subst hk
      have hall : (part k').filter (key · = k') = part k' :=
        List.filter_eq_self.2 fun a ha => decide_eq_true (hkey k' a ha)
      simp [hall, (List.nodup_cons.1 h).1]
    · have hnone : (part k').filter (key · = k) = [] :=
        List.filter_eq_nil_iff.2 fun a ha => by simpa [hkey k' a ha] using hk
      simp [hnone, Ne.symm hk]

/-- Of parts put one after another each one can be taken out again. -/
theorem filter_flatMap_key {part : κ → List α} (hkey : ∀ k, ∀ a ∈ part k, key a = k) {ks : List κ}
    (hks : ks.Nodup) (hrest : ∀ k, k ∉ ks → part k = []) (k : κ) :
    (ks.flatMap part).filter (key · = k) = part k := by
  rw [filter_flatMap_of_nodup hkey k hks]
  split_ifs with hk
  · rfl
  · exact (hrest k hk).symm

theorem perm_of_filter_key [DecidableEq α] {l m : List α}
    (h : ∀ k, l.filter (key · = k) = m.filter (key · = k)) : l.Perm m := by
  rw [List.perm_iff_count]
  intro a
  have hcount : ∀ n : List α, (n.filter (key · = key a)).count a = n.count a := fun n =>
    List.count_filter (decide_eq_true rfl)
  rw [← hcount l, ← hcount m, h]

end Bourse
