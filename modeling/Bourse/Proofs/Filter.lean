import Mathlib.Data.List.DropRight
import Mathlib.Data.String.Basic
import Bourse.Filter
import Bourse.Proofs.Outcome
import Bourse.Proofs.List.Descending

/-!
# Filters

Which exchange codes and industry labels are admitted (`Exchange.judged_select`,
`Filter.judged_selectIndustries`), and the form that labels are brought to: trimmed, admitted and
strictly ascending (`Filter.normalForm_of_select`). The lists in normal form are those that stay as
they are (`Filter.selectIndustries_eq_self_iff`), and lists that are the same but for blanks, order
and repetitions have one normal form (`Filter.selectIndustries_congr`).
-/

namespace Bourse

namespace Text

theorem trimChars_trimChars (cs : List Char) : trimChars (trimChars cs) = trimChars cs := by
  have htrim : ∀ cs, trimChars cs = (cs.dropWhile isBlank).rdropWhile isBlank := fun _ => rfl
  -- what is cut off at the end leaves the first character in its place
  have hfront : (trimChars cs).dropWhile isBlank = trimChars cs := by
    rw [List.dropWhile_eq_self_iff]
    intro hpos
    obtain ⟨rest, hrest⟩ := List.rdropWhile_prefix isBlank (cs.dropWhile isBlank)
    rw [← htrim] at hrest
    have hfirst := List.dropWhile_get_zero_not isBlank cs (by rw [← hrest]; simp; omega)
    simpa [← hrest, List.getElem_append_left hpos] using hfirst
  rw [htrim (trimChars cs), hfront, htrim cs]
  exact List.rdropWhile_idempotent isBlank _

theorem trim_trim (s : String) : trim (trim s) = trim s := by
  rw [trim, trim, String.toList_ofList, trimChars_trimChars]

end Text

/-- The exchange codes, in capitals; no code at all is one of them. -/
def Exchange.codes : List String :=
  ["", "ALL", "HOSE", "HSX", "HNX", "UPCOM"]

theorem Exchange.judged_select (code : String) :
    Judged (Text.upper (Text.trim code) ∈ codes) (select code) := by
  unfold select codes
  dsimp only
  generalize Text.upper (Text.trim code) = text
  split_ifs with hall hhose hhnx hupcom
  · have hcode : text = "" ∨ text = "ALL" := by simpa using hall
    exact .accepted (by rcases hcode with rfl | rfl <;> decide) _
  · have hcode : text = "HOSE" ∨ text = "HSX" := by simpa using hhose
    exact .accepted (by rcases hcode with rfl | rfl <;> decide) _
  · exact .accepted (by simp [hhnx]) _
  · exact .accepted (by simp [hupcom]) _
  · refine .refused ?_ _
    simp_all

namespace Filter

/-- A label of a hundred characters at the most, without control characters and without the marks
that quote, escape or separate. -/
structure IsLabel (raw : String) : Prop where
  nonempty : Text.trim raw ≠ ""
  length : (Text.trim raw).length ≤ 100
  plain : ∀ c ∈ (Text.trim raw).toList, ¬Text.isControl c ∧ c ∉ "'\";\\`,:".toList

theorem judged_checkLabel (raw : String) : Judged (IsLabel raw) (checkLabel raw) := by
  unfold checkLabel
  dsimp only
  split_ifs with hempty hlong hmarked
  · exact .refused (fun h => h.nonempty hempty) _
  · exact .refused (fun h => Nat.not_lt.2 h.length hlong) _
  · refine .refused (fun h => ?_) _
    obtain ⟨c, hc, hforbidden⟩ := List.any_eq_true.1 hmarked
    have := h.plain c hc
    simp_all [isForbidden]
  · refine .accepted ⟨hempty, Nat.not_lt.1 hlong, fun c hc => ?_⟩ _
    have := List.any_eq_false.1 (Bool.not_eq_true _ ▸ hmarked) c hc
    simp_all [isForbidden]

theorem judged_selectIndustries (labels : List String) :
    Judged (labels = [] ∨ (∃ label ∈ labels, isWildcard label) ∨ ∀ label ∈ labels, IsLabel label)
      (selectIndustries labels) := by
  unfold selectIndustries
  split_ifs with hall
  · refine .accepted ?_ _
    simpa [or_assoc] using Or.inl hall
  · have hchecked := (Judged.mapM judged_checkLabel labels).map sortedLabels
    refine hchecked.of_iff ?_
    simp_all

theorem checkLabel_trim (raw : String) : checkLabel (Text.trim raw) = checkLabel raw := by
  rw [checkLabel, checkLabel, Text.trim_trim]

theorem isWildcard_trim (raw : String) : isWildcard (Text.trim raw) = isWildcard raw := by
  rw [isWildcard, isWildcard, Text.trim_trim]

theorem checkLabel_eq_ok_iff {raw label : String} :
    checkLabel raw = .ok label ↔ IsLabel raw ∧ label = Text.trim raw := by
  have hvalue : ∀ {checked}, checkLabel raw = .ok checked → checked = Text.trim raw := by
    intro checked h
    unfold checkLabel at h
    dsimp only at h
    split_ifs at h
    exact (Except.ok.inj h).symm
  constructor
  · exact fun h => ⟨(judged_checkLabel raw).of_ok h, hvalue h⟩
  · rintro ⟨hlabel, rfl⟩
    obtain ⟨checked, h⟩ := (judged_checkLabel raw).exists_ok hlabel
    rw [h, hvalue h]

theorem isLabel_trim {raw : String} : IsLabel (Text.trim raw) ↔ IsLabel raw := by
  rw [← (judged_checkLabel _).isOk_iff, checkLabel_trim, (judged_checkLabel raw).isOk_iff]

instance : DecidablePred IsLabel :=
  fun raw => decidable_of_iff _ (judged_checkLabel raw).isOk_iff

theorem mapM_checkLabel : ∀ {labels : List String}, (∀ label ∈ labels, IsLabel label) →
    labels.mapM checkLabel = .ok (labels.map Text.trim)
  | [], _ => rfl
  | raw :: labels, h => by
    obtain ⟨hraw, hlabels⟩ := List.forall_mem_cons.1 h
    rw [List.mapM_cons, checkLabel_eq_ok_iff.2 ⟨hraw, rfl⟩, mapM_checkLabel hlabels]
    rfl

theorem mapM_checkLabel_eq_ok_iff {labels checked : List String} :
    labels.mapM checkLabel = .ok checked ↔
      (∀ label ∈ labels, IsLabel label) ∧ checked = labels.map Text.trim := by
  constructor
  · intro h
    have hlabels := (Judged.mapM judged_checkLabel labels).of_ok h
    exact ⟨hlabels, Except.ok.inj (h.symm.trans (mapM_checkLabel hlabels))⟩
  · rintro ⟨hlabels, rfl⟩
    exact mapM_checkLabel hlabels

/-- No label at all, or a wildcard among them. -/
def AsksForAll (labels : List String) : Prop :=
  labels = [] ∨ ∃ label ∈ labels, isWildcard label

instance (labels : List String) : Decidable (AsksForAll labels) :=
  inferInstanceAs (Decidable (_ ∨ _))

theorem selectIndustries_eq_ok_iff {labels industries : List String} :
    selectIndustries labels = .ok industries ↔
      (AsksForAll labels ∧ industries = Industry.known) ∨
      (¬AsksForAll labels ∧ (∀ label ∈ labels, IsLabel label) ∧
        industries = sortedLabels (labels.map Text.trim)) := by
  have hasks : (labels.isEmpty || labels.any isWildcard) = true ↔ AsksForAll labels := by
    simp [AsksForAll]
  unfold selectIndustries
  split_ifs with hall
  · simp [hasks.1 hall, eq_comm]
  · have hnot : ¬AsksForAll labels := hasks.not.1 hall
    simp only [hnot, false_and, false_or, not_false_eq_true, true_and]
    constructor
    · intro h
      cases hchecked : labels.mapM checkLabel with
      | error e => rw [hchecked] at h; cases h
      | ok checked =>
        rw [hchecked] at h
        obtain ⟨hlabels, rfl⟩ := mapM_checkLabel_eq_ok_iff.1 hchecked
        exact ⟨hlabels, (Except.ok.inj h).symm⟩
    · rintro ⟨hlabels, rfl⟩
      rw [mapM_checkLabel hlabels]
      rfl

/-- Labels in the one form that all lists with the same meaning are brought to, in the order of
their code points. -/
structure NormalForm (industries : List String) : Prop where
  nonempty : industries ≠ []
  ascending : industries.Pairwise (· < ·)
  trimmed : ∀ label ∈ industries, Text.trim label = label
  labels : ∀ label ∈ industries, IsLabel label
  named : ∀ label ∈ industries, ¬isWildcard label

theorem NormalForm.map_trim {industries : List String} (h : NormalForm industries) :
    industries.map Text.trim = industries :=
  (List.map_congr_left h.trimmed).trans (List.map_id _)

theorem NormalForm.not_asksForAll {industries : List String} (h : NormalForm industries) :
    ¬AsksForAll industries := by
  rintro (hnil | ⟨label, hlabel, hwildcard⟩)
  · exact h.nonempty hnil
  · exact h.named label hlabel hwildcard

theorem normalForm_known : NormalForm Industry.known where
  nonempty := by decide
  ascending := by decide +kernel
  trimmed := by decide +kernel
  labels := by decide +kernel
  named := by decide +kernel

theorem mem_sortedLabels {labels : List String} {label : String} :
    label ∈ sortedLabels labels ↔ label ∈ labels := by
  rw [sortedLabels, mem_eraseReps, List.mem_mergeSort]

theorem mem_selected {labels : List String} {label : String} :
    label ∈ sortedLabels (labels.map Text.trim) ↔ ∃ raw ∈ labels, Text.trim raw = label := by
  rw [mem_sortedLabels, List.mem_map]

theorem normalForm_of_select {labels industries : List String}
    (h : selectIndustries labels = .ok industries) : NormalForm industries := by
  rcases selectIndustries_eq_ok_iff.1 h with ⟨-, rfl⟩ | ⟨hnamed, hlabels, rfl⟩
  · exact normalForm_known
  · rw [AsksForAll, not_or, not_exists] at hnamed
    constructor
    case nonempty =>
      obtain ⟨raw, hraw⟩ := List.exists_mem_of_ne_nil labels hnamed.1
      exact List.ne_nil_of_mem (mem_selected.2 ⟨raw, hraw, rfl⟩)
    case ascending => exact pairwise_eraseReps_mergeSort_le _
    case trimmed =>
      intro label hlabel
      obtain ⟨raw, -, rfl⟩ := mem_selected.1 hlabel
      exact Text.trim_trim raw
    case labels =>
      intro label hlabel
      obtain ⟨raw, hraw, rfl⟩ := mem_selected.1 hlabel
      exact isLabel_trim.2 (hlabels raw hraw)
    case named =>
      intro label hlabel
      obtain ⟨raw, hraw, rfl⟩ := mem_selected.1 hlabel
      rw [isWildcard_trim]
      exact fun hwildcard => hnamed.2 raw ⟨hraw, hwildcard⟩

/-- The lists in normal form are those that stay as they are. -/
theorem selectIndustries_eq_self_iff {industries : List String} :
    selectIndustries industries = .ok industries ↔ NormalForm industries := by
  refine ⟨normalForm_of_select, fun h => ?_⟩
  refine selectIndustries_eq_ok_iff.2 (.inr ⟨h.not_asksForAll, h.labels, ?_⟩)
  rw [h.map_trim]
  exact (eraseReps_mergeSort_ascending h.ascending fun _ => Iff.rfl).symm

section Congr

variable {labels labels' : List String}
  (h : ∀ label, label ∈ labels.map Text.trim ↔ label ∈ labels'.map Text.trim)

include h

theorem forall_mem_congr_trim {P : String → Prop} (hP : ∀ raw, P (Text.trim raw) ↔ P raw) :
    (∀ label ∈ labels, P label) ↔ ∀ label ∈ labels', P label := by
  have hmap : ∀ labels : List String,
      (∀ label ∈ labels, P label) ↔ ∀ label ∈ labels.map Text.trim, P label := by
    intro labels
    rw [List.forall_mem_map]
    exact forall₂_congr fun raw _ => (hP raw).symm
  rw [hmap labels, hmap labels']
  exact forall_congr' fun label => imp_congr_left (h label)

theorem asksForAll_congr : AsksForAll labels ↔ AsksForAll labels' := by
  have hnil : labels = [] ↔ labels' = [] := by
    have := forall_mem_congr_trim h (P := fun _ => False) fun _ => Iff.rfl
    rwa [← List.eq_nil_iff_forall_not_mem, ← List.eq_nil_iff_forall_not_mem] at this
  have hnamed := forall_mem_congr_trim h (P := fun raw => ¬isWildcard raw) fun raw => by
    rw [isWildcard_trim]
  have hwildcard : (∃ label ∈ labels, isWildcard label) ↔ ∃ label ∈ labels', isWildcard label := by
    rw [← not_iff_not]
    simpa only [not_exists, not_and] using hnamed
  rw [AsksForAll, AsksForAll, hnil, hwildcard]

/-- Blanks, order and repetitions do not matter. -/
theorem selectIndustries_congr {industries : List String} :
    selectIndustries labels = .ok industries ↔ selectIndustries labels' = .ok industries := by
  have hsorted : sortedLabels (labels.map Text.trim) = sortedLabels (labels'.map Text.trim) :=
    eraseReps_mergeSort_le h
  rw [selectIndustries_eq_ok_iff, selectIndustries_eq_ok_iff, asksForAll_congr h, hsorted,
    forall_mem_congr_trim h fun _ => isLabel_trim]

end Congr

end Filter

end Bourse
