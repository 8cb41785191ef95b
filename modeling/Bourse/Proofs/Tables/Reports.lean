import Bourse.Proofs.Change.Pivot
import Bourse.Proofs.Tables.Records

/-!
# Report lines of tickers

A ticker's sums are those of its facts by date and line (`Tables.mem_sums_ticker`). Of report lines
that are told apart whatever their case (`ApartByCase`), the records between two periods are one for
each line that an admitted ticker has rows of in both (`Tables.mem_lineRecords`), with the change
between the sums of those rows (`Tables.lineChange`). Pivoted by line, they give each slot the
change of its own line and of no other (`Tables.slotValue_lines`).
-/

namespace Bourse

namespace Tables

variable (t : Tables)

section Sums

variable (measure : Measure)

/-- The values at a date of the facts of one ticker and report line. -/
def codeValues (date code : String) (line : Option String) : List (Option Float) :=
  ((t.facts measure).filter fun fact =>
    fact.date = date ∧ fact.code = code ∧ fact.line = line).map (·.value)

variable {t measure} {f : Filter} {dates : List String}

theorem code_admitted? {code : String} {ticker : Ticker} (h : t.admitted? f code = some ticker) :
    ticker.code = code := by
  have hfound := List.find?_some h
  rw [Bool.and_eq_true, beq_iff_eq] at hfound
  exact hfound.1

/-- Of the joined facts those of an admitted ticker and a line at a date hold its values there. -/
theorem values_joined_ticker {date code : String} {line : Option String} (hdate : date ∈ dates)
    (hadmits : t.Admits f code) :
    ((t.joined ⟨measure, .ticker, f, dates⟩).filter fun s =>
        s.key = (date, code, line)).map (·.value) = t.codeValues measure date code line := by
  rw [joined, codeValues, List.filterMap_filter, List.filter_filterMap, List.map_filterMap,
    ← List.filterMap_eq_map, List.filterMap_filter]
  refine List.filterMap_congr fun fact _ => ?_
  cases hticker : t.admitted? f fact.code with
  | none =>
    have hne : fact.code ≠ code := by
      rintro rfl
      rw [← isSome_admitted?, hticker] at hadmits
      cases hadmits
    simp [hne]
  | some ticker =>
    have hcode := code_admitted? hticker
    by_cases hfact : fact.date = date
    · simp [hfact, hdate, Sum.key, entityOf, hcode, Option.filter_some]
    · by_cases hmem : fact.date ∈ dates <;> simp [hfact, hmem, Sum.key, Option.filter_some]

theorem admits_of_mem_joined {s : Sum} (h : s ∈ t.joined ⟨measure, .ticker, f, dates⟩) :
    t.Admits f s.entity := by
  obtain ⟨fact, -, hs⟩ := List.mem_filterMap.1 h
  obtain ⟨ticker, hticker, rfl⟩ := Option.map_eq_some_iff.1 hs
  rw [entityOf, code_admitted? hticker, ← isSome_admitted?, hticker]
  rfl

/-- The sums of tickers are those of the admitted ones that have facts of a line at a date. -/
theorem mem_sums_ticker {s : Sum} : s ∈ t.sums ⟨measure, .ticker, f, dates⟩ ↔
    s.date ∈ dates ∧ t.Admits f s.entity ∧ t.codeValues measure s.date s.entity s.line ≠ [] ∧
      s.value = total (t.codeValues measure s.date s.entity s.line) := by
  by_cases h : s.date ∈ dates ∧ t.Admits f s.entity
  · have hvalues : ((t.joined ⟨measure, .ticker, f, dates⟩).filter fun r =>
        r.key = s.key).map (·.value) = t.codeValues measure s.date s.entity s.line :=
      values_joined_ticker h.1 h.2
    have hrow : (∃ r ∈ t.joined ⟨measure, .ticker, f, dates⟩, r.key = s.key) ↔
        t.codeValues measure s.date s.entity s.line ≠ [] := by
      rw [← hvalues, Ne, List.map_eq_nil_iff, List.filter_eq_nil_iff]
      simp [Sum.key]
    rw [mem_sums_iff, hrow, hvalues]
    exact ⟨fun hs => ⟨h.1, h.2, hs⟩, fun hs => hs.2.2⟩
  · refine iff_of_false (fun hs => h ⟨date_mem_of_mem_sums hs, ?_⟩) fun hs => h ⟨hs.1, hs.2.1⟩
    obtain ⟨⟨r, hr, hkey⟩, -⟩ := (mem_sums_iff _ _).1 hs
    rw [← show r.entity = s.entity from congrArg (·.2.1) hkey]
    exact admits_of_mem_joined hr

end Sums

/-- The values that a ticker's reports have for a line in a period, whatever the case of the ASCII
letters in the line's name. -/
def lineValues (period code line : String) : List (Option Float) :=
  (t.reports.filter fun r => r.period = period ∧ r.code = code ∧
    Text.sameIgnoringAsciiCase r.line line).map (·.value)

/-- A ticker has a row of the line in the reports of a period. -/
def Reports (period code line : String) : Prop :=
  ∃ r ∈ t.reports, r.period = period ∧ r.code = code ∧ Text.sameIgnoringAsciiCase r.line line

instance (period code line : String) : Decidable (t.Reports period code line) :=
  inferInstanceAs (Decidable (∃ r ∈ t.reports, _))

/-- The change between the sums of a ticker's rows of a line in two periods, none when one of the
periods has no such row. -/
def lineChange (earlier later code line : String) : Option Float :=
  if t.Reports earlier code line ∧ t.Reports later code line then
    percentChange (total (t.lineValues earlier code line)) (total (t.lineValues later code line))
  else none

theorem lineValues_ne_nil_iff {period code line : String} :
    t.lineValues period code line ≠ [] ↔ t.Reports period code line := by
  simp [lineValues, Reports]

end Tables

/-- The lower case of a line is that of its ASCII letters, stays as it is in lower case, and tells
the line from the others. -/
structure ApartByCase (lines : List String) : Prop where
  lower_eq : ∀ line ∈ lines, Text.lower line = Text.asciiLower line
  lower_lower : ∀ line ∈ lines, Text.lower (Text.lower line) = Text.lower line
  lower_inj : ∀ label ∈ lines, ∀ line ∈ lines, Text.lower label = Text.lower line → label = line

/-- The slot of a line takes what is reported under the line's lower case. -/
theorem ApartByCase.accepts_iff {lines : List String} (h : ApartByCase lines) {label line : String}
    (hlabel : label ∈ lines) (hline : line ∈ lines) {r : ChangeRecord}
    (hr : r.report = some (Text.lower line)) :
    (PivotSlots.byLine lines).accepts label r = true ↔ label = line := by
  rw [PivotSlots.accepts, hr, Option.any_some, beq_iff_eq, h.lower_lower line hline]
  exact ⟨h.lower_inj label hlabel line hline, congrArg Text.lower⟩

namespace Tables

section Lines

variable {t : Tables} {f : Filter} {lines : List String} (h : ApartByCase lines)

include h

/-- The facts of a report line in lower case are the reports of the line in any case. -/
theorem codeValues_report {period code line : String} (hline : line ∈ lines) :
    t.codeValues (.report lines) period code (some (Text.lower line))
      = t.lineValues period code line := by
  have hwanted : ∀ r : ReportFact, Text.asciiLower r.line = Text.asciiLower line →
      (lines.map Text.lower).contains (Text.asciiLower r.line) = true := by
    intro r hr
    rw [hr, ← h.lower_eq line hline, List.contains_iff_mem]
    exact List.mem_map_of_mem hline
  rw [codeValues, facts, List.filter_map, List.map_map, List.filter_filter, lineValues,
    h.lower_eq line hline]
  refine congrArg (List.map _) (List.filter_congr fun r _ => ?_)
  by_cases hr : Text.asciiLower r.line = Text.asciiLower line
  · have hcontains := hwanted r hr
    simp [hr, Text.sameIgnoringAsciiCase] at hcontains ⊢
    exact fun _ _ => hcontains
  · simp [hr, Text.sameIgnoringAsciiCase]

variable {earlier later : String} (hle : earlier ≤ later)

include hle

/-- A record stands for a line that an admitted ticker has rows of in both periods. -/
theorem mem_lineRecords {x : ChangeRecord} :
    x ∈ t.comparedRecords ⟨.report lines, .ticker, f, [later]⟩ [earlier] false ↔
      ∃ code, ∃ line ∈ lines, t.Admits f code ∧ t.Reports earlier code line ∧
        t.Reports later code line ∧
        x = .make later code (some earlier) (some (Text.lower line))
          (total (t.lineValues earlier code line)) (total (t.lineValues later code line)) := by
  rw [mem_comparedRecords]
  constructor
  · rintro ⟨c, hc, p, hp, hcomparable, rfl⟩
    obtain ⟨line, hline, hlower⟩ := List.mem_map.1 (t.line_mem_of_mem_sums hc)
    obtain ⟨-, hentity, hsame⟩ := (comparable_iff _ _ _).1 hcomparable
    obtain ⟨hcdate, hadmits, hcrows, hcvalue⟩ := mem_sums_ticker.1 hc
    obtain ⟨hpdate, -, hprows, hpvalue⟩ := mem_sums_ticker.1 hp
    rw [List.mem_singleton] at hcdate hpdate
    rw [← hentity, ← hsame, hpdate, ← hlower, codeValues_report h hline] at hprows hpvalue
    rw [hcdate, ← hlower, codeValues_report h hline] at hcrows hcvalue
    exact ⟨c.entity, line, hline, hadmits, t.lineValues_ne_nil_iff.1 hprows,
      t.lineValues_ne_nil_iff.1 hcrows, by rw [hcdate, hpdate, ← hlower, hpvalue, hcvalue]⟩
  · rintro ⟨code, line, hline, hadmits, hearlier, hlater, rfl⟩
    have hsum : ∀ period, t.Reports period code line →
        (⟨period, code, some (Text.lower line), total (t.lineValues period code line)⟩ : Sum) ∈
          t.sums ⟨.report lines, .ticker, f, [period]⟩ := by
      intro period hperiod
      refine mem_sums_ticker.2 ⟨List.mem_singleton_self period, hadmits, ?_, ?_⟩
      · exact codeValues_report h hline ▸ t.lineValues_ne_nil_iff.2 hperiod
      · exact congrArg total (codeValues_report h hline).symm
    exact ⟨_, hsum later hlater, _, hsum earlier hearlier,
      (comparable_iff _ _ _).2 ⟨hle, rfl, rfl⟩, rfl⟩

/-- The slot of a line holds the change of that line. -/
theorem slotValue_lines {code : String} (hadmits : t.Admits f code) {label : String}
    (hlabel : label ∈ lines) {records : List ChangeRecord}
    (hrecords : records.Perm
      (t.comparedRecords ⟨.report lines, .ticker, f, [later]⟩ [earlier] false)) :
    slotValue (.byLine lines) records code label = t.lineChange earlier later code label := by
  refine slotValue_eq ?_ ?_
  · rintro r hr rfl haccepts
    obtain ⟨code, line, hline, -, hearlier, hlater, rfl⟩ :=
      (mem_lineRecords h hle).1 (hrecords.mem_iff.1 hr)
    obtain rfl := (h.accepts_iff hlabel hline rfl).1 haccepts
    exact (if_pos ⟨hearlier, hlater⟩).symm
  · intro hnone
    unfold lineChange
    split_ifs with hboth
    · have hno := hnone _ (hrecords.mem_iff.2 ((mem_lineRecords h hle).2
        ⟨code, label, hlabel, hadmits, hboth.1, hboth.2, rfl⟩)) rfl
      exact absurd ((h.accepts_iff hlabel hlabel rfl).2 rfl) (Bool.eq_false_iff.1 hno)
    · rfl

/-- The rows of the pivot are those of the tickers with rows of a line in both periods. -/
theorem mem_entities_lines {code : String} {records : List ChangeRecord}
    (hrecords : records.Perm
      (t.comparedRecords ⟨.report lines, .ticker, f, [later]⟩ [earlier] false)) :
    code ∈ pivotEntities (.byLine lines) records ↔
      t.Admits f code ∧
        ∃ line ∈ lines, t.Reports earlier code line ∧ t.Reports later code line := by
  rw [mem_pivotEntities]
  constructor
  · rintro ⟨r, hr, -, rfl⟩
    obtain ⟨code, line, hline, hadmits, hearlier, hlater, rfl⟩ :=
      (mem_lineRecords h hle).1 (hrecords.mem_iff.1 hr)
    exact ⟨hadmits, line, hline, hearlier, hlater⟩
  · rintro ⟨hadmits, line, hline, hearlier, hlater⟩
    refine ⟨_, hrecords.mem_iff.2 ((mem_lineRecords h hle).2
      ⟨code, line, hline, hadmits, hearlier, hlater, rfl⟩), ?_, rfl⟩
    exact List.any_eq_true.2 ⟨line, hline, (h.accepts_iff hline hline rfl).2 rfl⟩

end Lines

end Tables

end Bourse
