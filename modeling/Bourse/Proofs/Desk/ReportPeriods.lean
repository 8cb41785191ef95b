import Bourse.Proofs.Cache.Key
import Bourse.Proofs.Desk.Samples

/-!
# Completed report periods

Reports are labelled by quarter or year (`Period.label`). A label names one period
(`Period.index_eq_of_label_eq`), and within years of four digits the labels are in the order of
their periods (`Period.label_lt`). So the labels of the periods before a day are those of the days
that these periods end on, from the oldest to the one just completed, and plans compare against the
oldest of them (`reportPeriods_completed`).
-/

namespace Bourse

theorem ofInt_inj {m n : ℤ} (h : Text.ofInt m = Text.ofInt n) : m = n := by
  have hchars : Text.intChars m = Text.intChars n := String.ofList_injective h
  have hdigits : ∀ {k l : ℕ}, Nat.toDigits 10 k = Nat.toDigits 10 l → k = l := fun hkl =>
    ofNat_inj (congrArg String.ofList hkl)
  have hminus : ∀ {k : ℕ} {cs : List Char}, Nat.toDigits 10 k ≠ '-' :: cs := by
    intro k cs hcs
    obtain ⟨c, rest, hc, hne, -⟩ := Text.exists_digit k
    exact hne (List.cons.inj (hc.symm.trans hcs)).1
  unfold Text.intChars at hchars
  split_ifs at hchars with hm hn hn
  · have := hdigits (List.cons.inj hchars).2
    omega
  · exact absurd hchars.symm hminus
  · exact absurd hchars hminus
  · have := hdigits hchars
    omega

theorem free_ofInt (n : ℤ) : Free 'Q' (Text.ofInt n) := by
  have hdigits : 'Q' ∉ Nat.toDigits 10 n.natAbs := fun h =>
    absurd (Text.isDigit_toDigits _ 'Q' h) (by decide)
  rw [Free, Text.ofInt, String.toList_ofList, Text.intChars]
  split_ifs <;> simp [hdigits]

/-- The label of a quarter names its year and its place in the year. -/
theorem quarterLabel_inj {year year' : ℤ} {quarter quarter' : ℕ}
    (h : quarterLabel year quarter = quarterLabel year' quarter') :
    year = year' ∧ quarter = quarter' := by
  have hpieces : ∀ (year : ℤ) (quarter : ℕ), quarterLabel year quarter
      = (String.ofList ['Q']).intercalate [Text.ofInt year, Text.ofNat quarter] := by
    intro year quarter
    simp [quarterLabel]
  have hfree : ∀ (year : ℤ) (quarter : ℕ), ∀ s ∈ [Text.ofInt year, Text.ofNat quarter],
      Free 'Q' s := by
    intro year quarter s hs
    rcases List.mem_pair.1 hs with rfl | rfl
    · exact free_ofInt year
    · rw [Free, Text.ofNat, String.toList_ofList]
      exact fun h => absurd (Text.isDigit_toDigits quarter 'Q' h) (by decide)
  rw [hpieces, hpieces] at h
  obtain ⟨hyear, hquarter⟩ := List.cons.inj <|
    intercalate_inj (List.cons_ne_nil _ _) (List.cons_ne_nil _ _) (hfree _ _) (hfree _ _) h
  exact ⟨ofInt_inj hyear, ofNat_inj (List.cons.inj hquarter).1⟩

namespace Period

/-- The label of the year or the quarter that holds a day. -/
def label (unit : Period) (d : Date) : String :=
  if unit = .year then Text.ofInt d.year else quarterLabel d.year ((d.month - 1) / 3 + 1)

/-- The year in the label of the year or the quarter with a given number. -/
def labelYear (unit : Period) (number : ℤ) : ℤ :=
  if unit = .year then number else number / 4

@[simp] theorem labelYear_quarter (number : ℤ) : quarter.labelYear number = number / 4 := rfl

@[simp] theorem labelYear_year (number : ℤ) : year.labelYear number = number := rfl

variable {unit : Period} (hunit : unit = .quarter ∨ unit = .year) {today d e : Date}

include hunit

theorem labelYear_index : unit.labelYear (unit.index d) = d.year := by
  have hmonth := Date.month_bounds d
  rcases hunit with rfl | rfl
  · rw [labelYear_quarter, index, quarterIndex_eq]
    omega
  · rfl

/-- Only the days of one period have the same label. -/
theorem index_eq_of_label_eq (h : unit.label d = unit.label e) : unit.index d = unit.index e := by
  rcases hunit with rfl | rfl
  · obtain ⟨hyear, hquarter⟩ := quarterLabel_inj h
    rw [index, index, quarterIndex_eq, quarterIndex_eq, hyear]
    omega
  · exact ofInt_inj h

theorem label_lt (hd : 1000 ≤ d.year ∧ d.year ≤ 9999) (he : 1000 ≤ e.year ∧ e.year ≤ 9999)
    (h : unit.index d < unit.index e) : unit.label d < unit.label e := by
  have hmd := Date.month_bounds d
  have hme := Date.month_bounds e
  rcases hunit with rfl | rfl
  · rw [index, index, quarterIndex_eq, quarterIndex_eq] at h
    exact quarterLabel_lt hd he (by omega) (by omega) (by omega)
  · rw [index, index] at h
    rw [label, label, if_pos rfl, if_pos rfl, String.lt_iff_toList_lt, toList_ofInt hd,
      toList_ofInt he, Date.padded_lt_padded_iff (by decide) (by omega) (by omega)]
    omega

/-- The label some steps back is that of the day on which its period ends. -/
theorem reportLabel_eq {k : ℕ} (h : unit.index e + k = unit.index today) :
    reportLabel today unit k = unit.label e := by
  have hmonth := Date.month_bounds e
  rcases hunit with rfl | rfl
  · rw [index, index] at h
    have hnumber : quarterIndex today - k = e.year * 4 + ((e.month - 1) / 3 : ℕ) := by
      rw [← quarterIndex_eq]
      omega
    have hyear : (e.year * 4 + ((e.month - 1) / 3 : ℕ)) / 4 = e.year := by omega
    have hquarter : ((e.year * 4 + ((e.month - 1) / 3 : ℕ)) % 4).toNat = (e.month - 1) / 3 := by
      omega
    simp only [reportLabel, label, reduceCtorEq, if_false, hnumber, hyear, hquarter]
  · rw [index, index] at h
    have hyear : today.year - k = e.year := by omega
    rw [reportLabel, label, if_pos rfl, if_pos rfl, hyear]

end Period

/-- Labels of the periods before that of a day, from the oldest to the one just completed: the
`i`-th from the end is the label of the day on which the period `i` steps back ends. -/
structure CompletedPeriods (today : Date) (unit : Period) (count : ℕ) (labels : List String) :
    Prop where
  length : labels.length = count
  labelled : ∀ i, 0 < i → i ≤ count →
    labels[count - i]? = some (unit.label (unit.endBefore today (.ofNat i)))
  closes : ∀ i, 0 < i → i ≤ count →
    unit.Closes today (.ofNat i) (unit.endBefore today (.ofNat i))
  consecutive : ∀ i < count, unit.index (unit.endBefore today (.ofNat (i + 1))) + 1
    = unit.index (unit.endBefore today (.ofNat i))
  chronological : ∀ i j, i < j → j ≤ count →
    unit.endBefore today (.ofNat j) < unit.endBefore today (.ofNat i)
  ascending : labels.Pairwise (· < ·)
  not_current : ∀ d, unit.index d = unit.index today → unit.label d ∉ labels

section Completed

variable {today : Date} {unit : Period} {count : UInt32}
  (hunit : unit = .quarter ∨ unit = .year)
  (hyears : ∀ i, 0 < i → i ≤ count.toNat → 1000 ≤ unit.labelYear (unit.index today - i) ∧
    unit.labelYear (unit.index today - i) ≤ 9999)

include hunit hyears

theorem count_le : count.toNat ≤ 36000 := by
  by_cases hcount : count.toNat = 0
  · omega
  have hfirst := hyears 1 (by decide) (by omega)
  have hlast := hyears count.toNat (by omega) le_rfl
  rcases hunit with rfl | rfl
  · simp only [Period.labelYear_quarter] at hfirst hlast
    omega
  · simp only [Period.labelYear_year] at hfirst hlast
    omega

theorem toNat_back {i : ℕ} (hi : i ≤ count.toNat) : (UInt32.ofNat i).toNat = i := by
  have hcount := count_le hunit hyears
  have hsize : UInt32.size = 4294967296 := rfl
  exact UInt32.toNat_ofNat_of_lt' (by omega)

theorem exists_starts_back {i : ℕ} (hpos : 0 < i) (hi : i ≤ count.toNat) :
    ∃ first, unit.Starts first ∧ unit.index first + (UInt32.ofNat i).toNat = unit.index today := by
  have hyear := (hyears i hpos hi).1
  have hfirst : unit.index .first < unit.index today - i := by
    rcases hunit with rfl | rfl
    · have hindex : Period.quarter.index .first = -1048572 := by decide
      rw [Period.labelYear_quarter] at hyear
      omega
    · have hindex : Period.year.index .first = -262143 := by decide
      rw [Period.labelYear_year] at hyear
      omega
  obtain ⟨first, hstarts, hindex⟩ :=
    @Period.exists_starts unit .first today _ hfirst (by omega)
  rw [toNat_back hunit hyears hi]
  exact ⟨first, hstarts, by omega⟩

theorem closes_back {i : ℕ} (hpos : 0 < i) (hi : i ≤ count.toNat) :
    unit.Closes today (.ofNat i) (unit.endBefore today (.ofNat i)) := by
  refine Period.closes_of_starts (fun hzero => ?_) (exists_starts_back hunit hyears hpos hi)
  have hi' := toNat_back hunit hyears hi
  rw [hzero, UInt32.toNat_zero] at hi'
  omega

theorem index_back {i : ℕ} (hi : i ≤ count.toNat) :
    unit.index (unit.endBefore today (.ofNat i)) + i = unit.index today := by
  rcases Nat.eq_zero_or_pos i with rfl | hpos
  · exact add_zero _
  · have hindex := (closes_back hunit hyears hpos hi).index_eq
    rwa [toNat_back hunit hyears hi] at hindex

/-- The days that the periods end on lie in the years of the labels. -/
theorem year_back {i : ℕ} (hpos : 0 < i) (hi : i ≤ count.toNat) :
    1000 ≤ (unit.endBefore today (.ofNat i)).year ∧
      (unit.endBefore today (.ofNat i)).year ≤ 9999 := by
  have hindex := index_back hunit hyears hi
  have hnumber : unit.index (unit.endBefore today (.ofNat i)) = unit.index today - i := by omega
  rw [← Period.labelYear_index hunit, hnumber]
  exact hyears i hpos hi

theorem reportLabel_back {i : ℕ} (hi : i ≤ count.toNat) :
    reportLabel today unit i = unit.label (unit.endBefore today (.ofNat i)) :=
  Period.reportLabel_eq hunit (index_back hunit hyears hi)

omit hunit hyears in
/-- Counted from its end, a list of labels goes back step by step. -/
theorem getElem?_labels {n i : ℕ} (hpos : 0 < i) (hi : i ≤ n) :
    ((List.range n).map fun k => reportLabel today unit (k + 1)).reverse[n - i]?
      = some (reportLabel today unit i) := by
  have hlen : ((List.range n).map fun k => reportLabel today unit (k + 1)).length = n := by simp
  rw [List.getElem?_reverse (by omega), hlen, show n - 1 - (n - i) = i - 1 by omega,
    List.getElem?_map, List.getElem?_range (by omega), Option.map_some, Nat.sub_add_cancel hpos]

theorem label_back_lt {i j : ℕ} (hpos : 0 < i) (hij : i < j) (hj : j ≤ count.toNat) :
    reportLabel today unit j < reportLabel today unit i := by
  have hi : i ≤ count.toNat := by omega
  have hindex := index_back hunit hyears hi
  have hindex' := index_back hunit hyears hj
  rw [reportLabel_back hunit hyears hi, reportLabel_back hunit hyears hj]
  exact Period.label_lt hunit (year_back hunit hyears (by omega) hj)
    (year_back hunit hyears hpos hi) (by omega)

theorem exists_completedPeriods : ∃ labels, reportPeriods today unit count = .ok labels ∧
    CompletedPeriods today unit count.toNat labels := by
  have hcount := count_le hunit hyears
  refine ⟨_, reportPeriods_of_lt hunit (by omega), ?_⟩
  constructor
  case length => simp
  case labelled =>
    intro i hpos hi
    rw [getElem?_labels hpos hi, reportLabel_back hunit hyears hi]
  case closes => exact fun i hpos hi => closes_back hunit hyears hpos hi
  case consecutive =>
    intro i hi
    have hindex := index_back hunit hyears (Nat.succ_le_of_lt hi)
    have hindex' := index_back hunit hyears hi.le
    rw [Nat.succ_eq_add_one] at hindex
    omega
  case chronological =>
    intro i j hij hj
    have hindex := index_back hunit hyears (by omega : i ≤ count.toNat)
    have hindex' := index_back hunit hyears hj
    exact Period.lt_of_index_lt unit (by omega)
  case ascending =>
    rw [List.pairwise_reverse, List.pairwise_map]
    refine List.pairwise_lt_range.imp_of_mem fun {i j} _ hj hij => ?_
    have hlt := List.mem_range.1 hj
    exact label_back_lt hunit hyears (Nat.succ_pos i) (by omega) hlt
  case not_current =>
    intro d hd hmem
    obtain ⟨k, hk, hlabel⟩ := List.mem_map.1 (List.mem_reverse.1 hmem)
    have hle : k + 1 ≤ count.toNat := List.mem_range.1 hk
    have hindex := index_back hunit hyears hle
    rw [reportLabel_back hunit hyears hle] at hlabel
    have heq := Period.index_eq_of_label_eq hunit hlabel
    omega

end Completed

theorem leastText_of_ascending {oldest : String} {later : List String}
    (h : (oldest :: later).Pairwise (· < ·)) : leastText (oldest :: later) = some oldest :=
  leastText_of_pairwise h fun _ => Iff.rfl

namespace Desk

variable (desk : Desk) {metric : Metric}

/-- A plan over report periods compares all of them with the least of their labels. -/
theorem plan_offset {window : Window} {labels : List String} {start : String}
    (hstrategy : metric.strategy = .offset) (hmeasure : metric.measure.sessions = none)
    (hlabels : reportPeriods desk.today window.unit (window.order + 1) = .ok labels)
    (hstart : leastText labels = some start) :
    desk.plan metric (some window) = pure (.compare labels [start] false) := by
  have hsample : desk.sampleDates metric.measure window = pure labels := by
    rw [sampleDates, hmeasure]
    exact congrArg Analysis.ofExcept hlabels
  rw [plan, hstrategy]
  change desk.sampleDates metric.measure window >>= _ = _
  rw [hsample, pure_bind, hstart]

/-- A plan over two quarters compares the later one with the first. -/
theorem plan_latestQuarters {window : Option Window} {first : String} {later : List String}
    (hstrategy : metric.strategy = .latestQuarters)
    (hlabels : reportPeriods desk.today .quarter 2 = .ok (first :: later)) :
    desk.plan metric window = pure (.compare later [first] false) := by
  rw [plan, hstrategy]
  simp only [hlabels]
  rfl

end Desk

/-- The labels of the periods before a day are as many as asked for and ascend to the one of the
period just completed, and what plans compare against is the first of them, the oldest. -/
theorem reportPeriods_completed (today : Date) (unit : Period) (count : UInt32)
    (hunit : unit = .quarter ∨ unit = .year)
    (hyears : ∀ i, 0 < i → i ≤ count.toNat → 1000 ≤ unit.labelYear (unit.index today - i) ∧
      unit.labelYear (unit.index today - i) ≤ 9999) :
    ∃ labels, reportPeriods today unit count = .ok labels ∧
      CompletedPeriods today unit count.toNat labels ∧
      (0 < count → ∃ oldest later, labels = oldest :: later ∧
        oldest = unit.label (unit.endBefore today count) ∧
        ∀ (desk : Desk) (metric : Metric), desk.today = today →
          (metric.strategy = .offset → metric.measure.sessions = none → ∀ window : Window,
            window.unit = unit → window.order + 1 = count →
              desk.plan metric (some window) = pure (.compare labels [oldest] false)) ∧
          (metric.strategy = .latestQuarters → unit = .quarter → count = 2 →
            ∀ window, desk.plan metric window = pure (.compare later [oldest] false))) := by
  obtain ⟨labels, hlabels, hcompleted⟩ := exists_completedPeriods hunit hyears
  refine ⟨labels, hlabels, hcompleted, fun hpos => ?_⟩
  have holdest := hcompleted.labelled count.toNat hpos le_rfl
  rw [Nat.sub_self, UInt32.ofNat_toNat] at holdest
  obtain ⟨oldest, later, rfl⟩ := List.exists_cons_of_ne_nil (List.ne_nil_of_mem
    (List.mem_of_getElem? holdest))
  refine ⟨oldest, later, rfl, Option.some.inj holdest, ?_⟩
  rintro desk metric rfl
  refine ⟨fun hstrategy hmeasure window hwindow hcount => ?_, fun hstrategy hquarter htwo _ => ?_⟩
  · subst hwindow hcount
    exact desk.plan_offset hstrategy hmeasure hlabels (leastText_of_ascending hcompleted.ascending)
  · subst hquarter htwo
    exact desk.plan_latestQuarters hstrategy hlabels

/-- Five quarters before a leap day. -/
theorem reportPeriods_completed_leap : ∃ today : Date, today.iso = "2024-02-29" ∧
    (∀ i, 0 < i → i ≤ (5 : UInt32).toNat →
      1000 ≤ Period.quarter.labelYear (Period.quarter.index today - i) ∧
        Period.quarter.labelYear (Period.quarter.index today - i) ≤ 9999) ∧
    ∃ labels, reportPeriods today .quarter 5 = .ok labels ∧
      CompletedPeriods today .quarter 5 labels ∧
      labels = ["2022Q4", "2023Q1", "2023Q2", "2023Q3", "2023Q4"] := by
  let today : Date := ⟨2024, 2, 29, by decide, by decide, by decide, by decide⟩
  have hindex : Period.quarter.index today = 8096 := by decide
  have hyears : ∀ i, 0 < i → i ≤ (5 : UInt32).toNat →
      1000 ≤ Period.quarter.labelYear (Period.quarter.index today - i) ∧
        Period.quarter.labelYear (Period.quarter.index today - i) ≤ 9999 := by
    intro i hpos hi
    have hfive : (5 : UInt32).toNat = 5 := rfl
    rw [Period.labelYear_quarter, hindex]
    omega
  obtain ⟨labels, hlabels, hcompleted, -⟩ :=
    reportPeriods_completed today .quarter 5 (.inl rfl) hyears
  refine ⟨today, by decide +kernel, hyears, labels, hlabels, hcompleted, ?_⟩
  have hrun : reportPeriods today .quarter 5
      = .ok ["2022Q4", "2023Q1", "2023Q2", "2023Q3", "2023Q4"] := by decide +kernel
  exact Except.ok.inj (hlabels.symm.trans hrun)

end Bourse
