import Mathlib.Data.Finset.Sort
import Mathlib.Order.Bounds.Basic
import Bourse.Proofs.List.Distinct

/-!
# Descending lists

In a strictly descending list the first member with a property is the greatest one
(`find?_iff_isGreatest`), the last one is the least (`findRev?_iff_isLeast`), and the place of a
member says how many are greater (`getElem?_iff_countP`). Sorting gives the one such list of the
members (`eraseReps_mergeSort_descending`), so all of this can be said about the finite set of them
(`descending`). In a strictly ascending list the members before a given one are the lesser ones
(`mem_takeWhile_ne`, `idxOf_lt_idxOf`).
-/

namespace Bourse

variable {α : Type} [LinearOrder α]

theorem find?_iff_isGreatest {p : α → Bool} {x : α} : ∀ {l : List α}, l.Pairwise (· > ·) →
    (l.find? p = some x ↔ IsGreatest {a | a ∈ l ∧ p a = true} x)
  | [], _ => by simp [IsGreatest]
  | a :: l, hl => by
    have ih : l.find? p = some x ↔ _ := find?_iff_isGreatest hl.of_cons
    by_cases ha : p a = true
    · rw [List.find?_cons_of_pos ha, Option.some.injEq]
      have hgreatest : IsGreatest {b | b ∈ a :: l ∧ p b = true} a := by
        refine ⟨⟨List.mem_cons_self, ha⟩, fun b hb => ?_⟩
        rcases List.mem_cons.1 hb.1 with rfl | hmem
        · exact le_rfl
        · exact (List.rel_of_pairwise_cons hl hmem).le
      exact ⟨fun h => h ▸ hgreatest, fun h => hgreatest.unique h⟩
    · rw [List.find?_cons_of_neg ha, ih]
      have hset : {b | b ∈ l ∧ p b = true} = {b | b ∈ a :: l ∧ p b = true} := by
        ext b
        simp only [Set.mem_ofPred_eq, List.mem_cons]
        refine ⟨fun h => ⟨.inr h.1, h.2⟩, fun h => ⟨h.1.resolve_left ?_, h.2⟩⟩
        rintro rfl
        exact ha h.2
      rw [hset]

theorem findRev?_iff_isLeast {p : α → Bool} {x : α} {l : List α} (hl : l.Pairwise (· > ·)) :
    l.findRev? p = some x ↔ IsLeast {a | a ∈ l ∧ p a = true} x := by
  have hdual : l.reverse.find? p = some x ↔ IsLeast {a | a ∈ l.reverse ∧ p a = true} x :=
    @find?_iff_isGreatest αᵒᵈ _ p x l.reverse (List.pairwise_reverse.2 hl)
  simpa only [List.findRev?_eq_find?_reverse, List.mem_reverse] using hdual

/-- The place of a member of a descending list is the number of greater ones. -/
theorem getElem?_iff_countP {x : α} : ∀ {l : List α} {i : ℕ}, l.Pairwise (· > ·) →
    (l[i]? = some x ↔ x ∈ l ∧ l.countP (x < ·) = i)
  | [], i, _ => by simp
  | a :: l, i, hl => by
    have hself : (a :: l).countP (a < ·) = 0 := by
      rw [List.countP_eq_zero]
      intro b hb
      rcases List.mem_cons.1 hb with rfl | hmem
      · simp
      · simpa using (List.rel_of_pairwise_cons hl hmem).le
    have hcons : x ∈ l → (a :: l).countP (x < ·) = l.countP (x < ·) + 1 := fun hx =>
      List.countP_cons_of_pos (by simpa using List.rel_of_pairwise_cons hl hx)
    cases i with
    | zero =>
      rw [List.getElem?_cons_zero, Option.some.injEq]
      constructor
      · rintro rfl
        exact ⟨List.mem_cons_self, hself⟩
      · rintro ⟨hx, hcount⟩
        rcases List.mem_cons.1 hx with rfl | hmem
        · rfl
        · rw [hcons hmem] at hcount
          cases hcount
    | succ i =>
      rw [List.getElem?_cons_succ, getElem?_iff_countP hl.of_cons]
      constructor
      · rintro ⟨hx, hcount⟩
        exact ⟨List.mem_cons_of_mem a hx, by rw [hcons hx, hcount]⟩
      · rintro ⟨hx, hcount⟩
        rcases List.mem_cons.1 hx with rfl | hmem
        · rw [hself] at hcount
          cases hcount
        · rw [hcons hmem] at hcount
          exact ⟨hmem, Nat.succ.inj hcount⟩

/-- Sorting with the greatest first and dropping repetitions gives the one strictly descending list
of the members. -/
theorem eraseReps_mergeSort_descending [BEq α] [LawfulBEq α] {l m : List α}
    (hm : m.Pairwise (· > ·)) (h : ∀ x, x ∈ l ↔ x ∈ m) :
    (l.mergeSort fun a b => b ≤ a).eraseReps = m := by
  refine eraseReps_mergeSort_eq ?_ ?_ ?_ ?_ h
  · intro a b c hab hbc
    simp only [decide_eq_true_eq] at hab hbc ⊢
    exact hbc.trans hab
  · intro a b
    simpa using le_total b a
  · intro a b hab hba
    simp only [decide_eq_true_eq] at hab hba
    exact le_antisymm hba hab
  · exact hm.imp fun hab => ⟨decide_eq_true hab.le, hab.ne'⟩

theorem eraseReps_mergeSort_ascending [hbeq : BEq α] [hlawful : LawfulBEq α] {l m : List α}
    (hm : m.Pairwise (· < ·)) (h : ∀ x, x ∈ l ↔ x ∈ m) :
    (l.mergeSort fun a b => a ≤ b).eraseReps = m :=
  @eraseReps_mergeSort_descending αᵒᵈ _ hbeq hlawful l m hm h

section Ascending

variable {l : List α} {x y : α}

theorem mem_takeWhile_ne (hx : x ∈ l) (hl : l.Pairwise (· < ·)) :
    y ∈ l.takeWhile (· ≠ x) ↔ y ∈ l ∧ y < x := by
  induction l with
  | nil => cases hx
  | cons a l ih =>
    by_cases ha : a = x
    · subst ha
      have hlt : ∀ z ∈ l, ¬z < a := fun z hz => (List.rel_of_pairwise_cons hl hz).asymm
      simp only [ne_eq, not_true_eq_false, decide_false, Bool.false_eq_true, not_false_eq_true,
        List.takeWhile_cons_of_neg, List.not_mem_nil, List.mem_cons, false_iff, not_and]
      rintro (rfl | hy)
      · exact lt_irrefl _
      · exact hlt y hy
    · have hmem : x ∈ l := (List.mem_cons.1 hx).resolve_left (Ne.symm ha)
      have hax := List.rel_of_pairwise_cons hl hmem
      rw [List.takeWhile_cons_of_pos (by simpa using ha), List.mem_cons, ih hmem hl.of_cons,
        List.mem_cons]
      constructor
      · rintro (rfl | ⟨hy, hlt⟩)
        · exact ⟨.inl rfl, hax⟩
        · exact ⟨.inr hy, hlt⟩
      · rintro ⟨rfl | hy, hlt⟩
        · exact .inl rfl
        · exact .inr ⟨hy, hlt⟩

/-- The last member before `x` with a property is the greatest lesser one. -/
theorem findRev?_takeWhile_iff {p : α → Bool} (hx : x ∈ l) (hl : l.Pairwise (· < ·)) :
    (l.takeWhile (· ≠ x)).findRev? p = some y ↔
      IsGreatest {a | (a ∈ l ∧ a < x) ∧ p a = true} y := by
  have hrev : (l.takeWhile (· ≠ x)).reverse.Pairwise (· > ·) :=
    List.pairwise_reverse.2 (hl.sublist (List.takeWhile_sublist _))
  rw [List.findRev?_eq_find?_reverse, find?_iff_isGreatest hrev]
  simp only [List.mem_reverse, mem_takeWhile_ne hx hl]

theorem idxOf_lt_idxOf [BEq α] [LawfulBEq α] (hx : x ∈ l) (hy : y ∈ l) (hl : l.Pairwise (· < ·))
    (h : x < y) : l.idxOf x < l.idxOf y := by
  by_contra hle
  have hlx := List.idxOf_lt_length_of_mem hx
  have hly := List.idxOf_lt_length_of_mem hy
  rcases (not_lt.1 hle).lt_or_eq with hlt | heq
  · have hpair := List.pairwise_iff_getElem.1 hl _ _ hly hlx hlt
    rw [List.getElem_idxOf hly, List.getElem_idxOf hlx] at hpair
    exact hpair.asymm h
  · exact h.ne ((List.idxOf_inj hy).1 heq).symm

end Ascending

/-- The members of a finite set from the greatest to the least. -/
def descending (S : Finset α) : List α :=
  S.sort (· ≥ ·)

variable {S : Finset α} {x : α}

theorem mem_descending : x ∈ descending S ↔ x ∈ S :=
  Finset.mem_sort _

theorem pairwise_descending (S : Finset α) : (descending S).Pairwise (· > ·) :=
  S.sortedGT_sort.pairwise

theorem descending_toFinset {l : List α} (h : l.Pairwise (· > ·)) : descending l.toFinset = l :=
  eq_of_pairwise (fun hab => hab.asymm) (pairwise_descending _) h fun x => by
    rw [mem_descending, List.mem_toFinset]

section Sorting

variable [hbeq : BEq α] [hlawful : LawfulBEq α] {l m : List α} (h : ∀ x, x ∈ l ↔ x ∈ m)

include h

/-- Sorting with the greatest first and dropping repetitions gives one list for every order. -/
theorem eraseReps_mergeSort_ge :
    (l.mergeSort fun a b => b ≤ a).eraseReps = (m.mergeSort fun a b => b ≤ a).eraseReps := by
  have hsort : ∀ k : List α, (k.mergeSort fun a b => b ≤ a).eraseReps = descending k.toFinset :=
    fun k => eraseReps_mergeSort_descending (pairwise_descending _) fun x => by
      rw [mem_descending, List.mem_toFinset]
  have hmem : l.toFinset = m.toFinset := Finset.ext fun x => by
    rw [List.mem_toFinset, List.mem_toFinset, h]
  rw [hsort, hsort, hmem]

theorem eraseReps_mergeSort_le :
    (l.mergeSort fun a b => a ≤ b).eraseReps = (m.mergeSort fun a b => a ≤ b).eraseReps :=
  @eraseReps_mergeSort_ge αᵒᵈ _ hbeq hlawful l m h

end Sorting

/-- Sorted and without repetitions, each member is less than the next. -/
theorem pairwise_eraseReps_mergeSort_le [BEq α] [LawfulBEq α] (l : List α) :
    (l.mergeSort fun a b => a ≤ b).eraseReps.Pairwise (· < ·) := by
  have hsorted : (l.mergeSort fun a b => a ≤ b).Pairwise (· ≤ ·) := by
    refine (List.pairwise_mergeSort ?_ ?_ l).imp of_decide_eq_true
    · simpa using fun a b c => le_trans
    · simpa using le_total
  exact (pairwise_eraseReps le_antisymm hsorted).imp fun hab => lt_of_le_of_ne hab.1 hab.2

theorem length_descending (S : Finset α) : (descending S).length = S.card :=
  Finset.length_sort _

theorem countP_descending (S : Finset α) (p : α → Prop) [DecidablePred p] :
    (descending S).countP p = (S.filter p).card := by
  rw [List.countP_eq_length_filter, ← length_descending]
  refine List.Perm.length_eq ((List.perm_ext_iff_of_nodup ?_ ?_).2 fun x => ?_)
  · exact ((pairwise_descending S).imp ne_of_gt).filter _
  · exact (pairwise_descending _).imp ne_of_gt
  · simp [mem_descending]

theorem getElem?_descending_iff {i : ℕ} :
    (descending S)[i]? = some x ↔ x ∈ S ∧ (S.filter (x < ·)).card = i := by
  rw [getElem?_iff_countP (pairwise_descending S), mem_descending, countP_descending]

/-- Only one member has so many greater ones. -/
theorem eq_of_card_filter {i : ℕ} {y : α} (hx : x ∈ S ∧ (S.filter (x < ·)).card = i)
    (hy : y ∈ S ∧ (S.filter (y < ·)).card = i) : x = y :=
  Option.some.inj ((getElem?_descending_iff.2 hx).symm.trans (getElem?_descending_iff.2 hy))

theorem isGreatest_of_head_descending (h : (descending S)[0]? = some x) :
    IsGreatest {a | a ∈ S} x := by
  obtain ⟨hmem, hcard⟩ := getElem?_descending_iff.1 h
  rw [Finset.card_eq_zero, Finset.filter_eq_empty_iff] at hcard
  exact ⟨hmem, fun a ha => not_lt.1 (hcard ha)⟩

theorem exists_getElem?_descending {i : ℕ} (hi : i < S.card) :
    ∃ x, (descending S)[i]? = some x :=
  ⟨_, List.getElem?_eq_getElem (by rwa [length_descending])⟩

theorem getElem?_descending_eq_none {i : ℕ} (hi : S.card ≤ i) : (descending S)[i]? = none :=
  List.getElem?_eq_none (by rwa [length_descending])

section Find

variable {p : α → Prop} [DecidablePred p]

theorem find?_descending_iff :
    (descending S).find? (p ·) = some x ↔ IsGreatest {a | a ∈ S ∧ p a} x := by
  rw [find?_iff_isGreatest (pairwise_descending S)]
  simp only [mem_descending, decide_eq_true_eq]

theorem findRev?_descending_iff :
    (descending S).findRev? (p ·) = some x ↔ IsLeast {a | a ∈ S ∧ p a} x := by
  rw [findRev?_iff_isLeast (pairwise_descending S)]
  simp only [mem_descending, decide_eq_true_eq]

theorem exists_find?_descending (h : ∃ a ∈ S, p a) : ∃ x, (descending S).find? (p ·) = some x := by
  obtain ⟨a, ha, hpa⟩ := h
  rw [← Option.isSome_iff_exists, List.find?_isSome]
  exact ⟨a, mem_descending.2 ha, decide_eq_true hpa⟩

theorem exists_findRev?_descending (h : ∃ a ∈ S, p a) :
    ∃ x, (descending S).findRev? (p ·) = some x := by
  obtain ⟨a, ha, hpa⟩ := h
  rw [← Option.isSome_iff_exists, List.findRev?_eq_find?_reverse, List.find?_isSome]
  exact ⟨a, List.mem_reverse.2 (mem_descending.2 ha), decide_eq_true hpa⟩

theorem find?_descending_eq_none (h : ¬∃ a ∈ S, p a) :
    (descending S).find? (p ·) = none ∧ (descending S).findRev? (p ·) = none := by
  have hall : ∀ a ∈ descending S, ¬decide (p a) = true := fun a ha hpa =>
    h ⟨a, mem_descending.1 ha, of_decide_eq_true hpa⟩
  refine ⟨List.find?_eq_none.2 hall, ?_⟩
  rw [List.findRev?_eq_find?_reverse]
  exact List.find?_eq_none.2 fun a ha => hall a (List.mem_reverse.1 ha)

end Find

end Bourse
