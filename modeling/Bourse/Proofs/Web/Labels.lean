import Bourse.Proofs.Cache.Key
import Bourse.Web.MarketQuery

/-!
# Labels in a query

The text of a query joins labels by commas. Since no label in normal form holds a comma, a query
reads such labels back as they are (`MarketQuery.labels_eq`), so that what was asked for once can be
asked for again (`Filter.selectIndustries_normal`).
-/

namespace Bourse

namespace Text

theorem splitList_eq_splitOn {α : Type} [DecidableEq α] (separator : α) : ∀ items : List α,
    splitList separator items = items.splitOn separator
  | [] => rfl
  | a :: rest => by
    rw [splitList, List.splitOn_cons_eq_if_modifyHead, splitList_eq_splitOn separator rest]
    simp only [beq_iff_eq]
    congr 1
    obtain ⟨piece, pieces, hpieces⟩ :=
      List.exists_cons_of_ne_nil (List.splitOn_ne_nil separator rest)
    rw [hpieces]
    rfl

/-- Pieces that are free of the separator come apart again. -/
theorem split_intercalate {c : Char} {ss : List String} (hne : ss ≠ [])
    (hfree : ∀ s ∈ ss, Free c s) : split c ((String.ofList [c]).intercalate ss) = ss := by
  rw [split, splitList_eq_splitOn, splitOn_intercalate hne hfree, List.map_map]
  simp

end Text

namespace Web.MarketQuery

variable {q : MarketQuery} {industries : List String}

/-- A query reads labels in normal form back from the text that joins them. -/
theorem labels_eq (h : Filter.NormalForm industries)
    (hq : q.industries = some (",".intercalate industries)) : q.labels = industries := by
  have hsplit : Text.split ',' (",".intercalate industries) = industries :=
    Text.split_intercalate h.nonempty (h.free (by decide))
  rw [labels, hq]
  dsimp only
  rw [hsplit, List.filter_eq_self]
  intro label hlabel
  exact decide_eq_true (h.labels label hlabel).nonempty

theorem filter_eq (h : Filter.NormalForm industries)
    (hq : q.industries = some (",".intercalate industries)) :
    q.filter = (Exchange.select (q.exchange.getD "ALL")).map (⟨·, industries⟩) := by
  rw [filter, Filter.make, labels_eq h hq, Filter.selectIndustries_eq_self_iff.2 h]
  cases Exchange.select (q.exchange.getD "ALL") <;> rfl

end Web.MarketQuery

namespace Filter

/-- What a list of labels is brought to depends on the labels without their blanks alone, is in
normal form, and is the same again when it is asked for, as a list or as the text of a query. -/
theorem selectIndustries_normal {labels industries : List String}
    (h : selectIndustries labels = .ok industries) :
    NormalForm industries ∧
    (labels ≠ [] → (∀ label ∈ labels, ¬isWildcard label) →
      ∀ label, label ∈ industries ↔ label ∈ labels.map Text.trim) ∧
    (∀ labels', (∀ label, label ∈ labels'.map Text.trim ↔ label ∈ labels.map Text.trim) →
      selectIndustries labels' = .ok industries) ∧
    selectIndustries industries = .ok industries ∧
    ∀ (exchanges : List Exchange) (q : Web.MarketQuery),
      q.industries = some (industryFragment ⟨exchanges, industries⟩) →
      q.filter = (Exchange.select (q.exchange.getD "ALL")).map (⟨·, industries⟩) := by
  have hnormal := normalForm_of_select h
  refine ⟨hnormal, ?_, fun labels' hsame => (selectIndustries_congr hsame).2 h,
    selectIndustries_eq_self_iff.2 hnormal, fun _ _ hq => Web.MarketQuery.filter_eq hnormal hq⟩
  intro hne hnamed label
  have hnot : ¬AsksForAll labels := by
    rintro (hnil | ⟨raw, hraw, hwildcard⟩)
    · exact hne hnil
    · exact hnamed raw hraw hwildcard
  obtain ⟨-, -, rfl⟩ := (selectIndustries_eq_ok_iff.1 h).resolve_left fun hall => hnot hall.1
  exact mem_sortedLabels

/-- Two labels, one of them given twice. -/
theorem selectIndustries_normal_twice :
    selectIndustries [" Retail ", "Banking", "Retail"] = .ok ["Banking", "Retail"] ∧
    NormalForm ["Banking", "Retail"] ∧
    Web.MarketQuery.filter ⟨some "HNX", some "Banking,Retail", none, none, none⟩
      = .ok ⟨[.hnx], ["Banking", "Retail"]⟩ := by
  have htrim : [" Retail ", "Banking", "Retail"].map Text.trim
      = ["Retail", "Banking", "Retail"] := by decide +kernel
  have hselect : selectIndustries [" Retail ", "Banking", "Retail"]
      = .ok ["Banking", "Retail"] := by
    refine selectIndustries_eq_ok_iff.2 (.inr ⟨by decide +kernel, by decide +kernel, ?_⟩)
    rw [htrim]
    refine (eraseReps_mergeSort_ascending (by decide) fun label => ?_).symm
    simp only [List.mem_cons, List.not_mem_nil, or_false]
    tauto
  have hexchange : Exchange.select "HNX" = .ok [.hnx] := by decide +kernel
  obtain ⟨hnormal, -, -, -, hquery⟩ := selectIndustries_normal hselect
  refine ⟨hselect, hnormal, ?_⟩
  rw [hquery [] ⟨some "HNX", some "Banking,Retail", none, none, none⟩ (by decide)]
  change (Exchange.select "HNX").map _ = _
  rw [hexchange]
  rfl

end Filter

end Bourse
