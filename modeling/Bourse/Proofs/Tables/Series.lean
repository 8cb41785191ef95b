import Bourse.Desk.Industries
import Bourse.Proofs.List.Descending
import Bourse.Proofs.Tables.Records

/-!
# Series of industries

The records of a series are told apart by date, industry and report line, whether each date is
compared with the one before it (`laggedRecords`) or all of them with one start (`offsetRecords`).
There is a record for each date and part with the rows that it needs, and its change is that of the
part's sums (`mem_keys_laggedRecords`, `percentChange_laggedRecords` and alike). Sorted by time they
make the series (`IsSeries`).
-/

namespace Bourse

/-- A sum as a point of a series. -/
def Sum.point (s : Sum) : SeriesPoint :=
  ⟨s.date, s.entity, s.line, s.value⟩

theorem SeriesPoint.ofRow?_sumRow (s : Sum) : ofRow? (Tables.sumRow s) = some s.point := by
  have hvalue : (Tables.sumRow s).float? "v" = s.value := by
    rw [← Tables.toFloat?_numberCell s.value, Tables.sumRow]
    cases s.line <;> rfl
  have hline : (Tables.sumRow s).text? "report" = s.line := by
    rw [Tables.sumRow]
    cases s.line <;> rfl
  rw [ofRow?, hvalue, hline]
  rfl

namespace Tables

variable (t : Tables)

/-- The records of a series in which each date is compared with the one before it. -/
def laggedRecords (a : Aggregate) : List ChangeRecord :=
  SeriesPoint.lagChanges (((t.sums a).map sumRow).filterMap SeriesPoint.ofRow?)

/-- The records of a series in which each date is compared with the start. -/
def offsetRecords (a : Aggregate) (start : String) : List ChangeRecord :=
  (t.comparisonRows a [start] false).filterMap ChangeRecord.ofRow?

theorem points_sums (a : Aggregate) :
    ((t.sums a).map sumRow).filterMap SeriesPoint.ofRow? = (t.sums a).map Sum.point := by
  rw [List.filterMap_map, ← List.filterMap_eq_map]
  exact List.filterMap_congr fun s _ => SeriesPoint.ofRow?_sumRow s

theorem keys_points (a : Aggregate) :
    ((t.sums a).map Sum.point).map SeriesPoint.key = (t.sums a).map Sum.key := by
  rw [List.map_map]
  rfl

theorem offsetRecords_eq (a : Aggregate) (start : String) :
    t.offsetRecords a start = t.comparedRecords a [start] false := rfl

theorem mem_offsetRecords {a : Aggregate} {start : String} {r : ChangeRecord} :
    r ∈ t.offsetRecords a start ↔ ∃ c ∈ t.sums a, ∃ p ∈ t.sums { a with dates := [start] },
      p.date ≤ c.date ∧ c.entity = p.entity ∧ c.line = p.line ∧
        r = .make c.date c.entity (some p.date) c.line p.value c.value := by
  simp only [offsetRecords_eq, mem_comparedRecords, comparable_iff, Bool.false_eq_true, if_false,
    and_assoc]

theorem nodup_laggedRecords (a : Aggregate) :
    ((t.laggedRecords a).map ChangeRecord.key).Nodup := by
  rw [laggedRecords, points_sums]
  refine SeriesPoint.nodup_lagChanges ?_
  rw [keys_points]
  exact t.nodup_sums a

/-- All of the records have one prior date, so they are told apart by the rest. -/
theorem nodup_offsetRecords (a : Aggregate) (start : String) :
    ((t.offsetRecords a start).map ChangeRecord.key).Nodup := by
  refine List.pairwise_map.2 ((List.pairwise_map.1
    (t.nodup_comparedRecords a [start] false)).imp_of_mem fun {r s} hr hs hne hkey => hne ?_)
  have hprior : ∀ {x}, x ∈ t.comparedRecords a [start] false → x.priorDate = some start :=
    fun hx => by simpa using (t.of_mem_comparedRecords hx).priorDate
  exact Prod.ext ((hprior hr).trans (hprior hs).symm) hkey

theorem line_mem_laggedRecords {a : Aggregate} {r : ChangeRecord} (hr : r ∈ t.laggedRecords a) :
    r.report ∈ a.measure.lines := by
  have hkey := List.mem_map_of_mem (f := ChangeRecord.key) hr
  rw [laggedRecords, points_sums, SeriesPoint.mem_keys_lagChanges, keys_points] at hkey
  obtain ⟨s, hs, hkey⟩ := List.mem_map.1 hkey
  rw [← show s.line = r.report from congrArg (·.2.2) hkey]
  exact t.line_mem_of_mem_sums hs

theorem line_mem_offsetRecords {a : Aggregate} {start : String} {r : ChangeRecord}
    (hr : r ∈ t.offsetRecords a start) : r.report ∈ a.measure.lines := by
  exact (t.of_mem_comparedRecords hr).report

section Parts

variable (measure : Measure) (f : Filter)

/-- The last of the dates before a given one at which the part has a row. -/
def priorDate? (dates : List String) (date : String) (part : String × Option String) :
    Option String :=
  (dates.takeWhile (· ≠ date)).findRev? fun d => (t.sumAt? measure f d part).isSome

/-- The change of the sum of a part at a date from the sum at a prior one. -/
def partChange (prior : Option String) (date : String) (part : String × Option String) :
    Option Float :=
  percentChange (prior.bind fun d => (t.sumAt? measure f d part).join)
    (t.sumAt? measure f date part).join

variable {t measure f} (hcodes : (t.tickers.map (·.code)).Nodup) {dates : List String}
  {date : String} {part : String × Option String}

include hcodes

theorem mem_keys_sums : (date, part) ∈ (t.sums ⟨measure, .industry, f, dates⟩).map Sum.key ↔
    date ∈ dates ∧ (t.sumAt? measure f date part).isSome := by
  simp only [List.mem_map, mem_sums_industry hcodes, Option.isSome_iff_exists]
  constructor
  · rintro ⟨s, ⟨hdate, hsum⟩, hkey⟩
    obtain ⟨rfl, rfl⟩ := Prod.ext_iff.1 hkey
    exact ⟨hdate, s.value, hsum⟩
  · rintro ⟨hdate, value, hsum⟩
    exact ⟨⟨date, part.1, part.2, value⟩, ⟨hdate, hsum⟩, rfl⟩

theorem mem_keys_laggedRecords :
    (date, part) ∈ (t.laggedRecords ⟨measure, .industry, f, dates⟩).map ChangeRecord.key ↔
      date ∈ dates ∧ (t.sumAt? measure f date part).isSome := by
  rw [laggedRecords, points_sums, SeriesPoint.mem_keys_lagChanges, keys_points,
    mem_keys_sums hcodes]

theorem mem_points {p : SeriesPoint} :
    p ∈ (t.sums ⟨measure, .industry, f, dates⟩).map Sum.point ↔
      p.date ∈ dates ∧ t.sumAt? measure f p.date p.part = some p.value := by
  rw [List.mem_map]
  constructor
  · rintro ⟨s, hs, rfl⟩
    exact (mem_sums_industry hcodes).1 hs
  · intro hp
    exact ⟨⟨p.date, p.entity, p.report, p.value⟩, (mem_sums_industry hcodes).2 hp, rfl⟩

omit hcodes in
/-- The point before another one is at the last date before it with a row. -/
theorem map_date_prior (hdates : dates.Pairwise (· < ·)) {points : List SeriesPoint}
    (hpoints : ∀ p, p ∈ points ↔
      p.date ∈ dates ∧ t.sumAt? measure f p.date p.part = some p.value)
    {p : SeriesPoint} (hp : p ∈ points) {prior : Option SeriesPoint}
    (hprior : SeriesPoint.IsPrior points p prior) :
    prior.map (·.date) = t.priorDate? measure f dates p.date p.part := by
  have hdate := ((hpoints p).1 hp).1
  have hrow : ∀ d, (d ∈ dates ∧ d < p.date) ∧ (t.sumAt? measure f d p.part).isSome = true →
      ∃ q' ∈ prior, d ≤ q'.date := by
    rintro d ⟨⟨hd, hlt⟩, hsome⟩
    obtain ⟨value, hvalue⟩ := Option.isSome_iff_exists.1 hsome
    exact hprior.latest ⟨d, p.entity, p.report, value⟩ ((hpoints _).2 ⟨hd, hvalue⟩) rfl hlt
  symm
  cases prior with
  | none =>
    rw [Option.map_none, priorDate?, List.findRev?_eq_find?_reverse, List.find?_eq_none]
    intro d hd hsome
    rw [List.mem_reverse, mem_takeWhile_ne hdate hdates] at hd
    obtain ⟨q, hq, -⟩ := hrow d ⟨hd, hsome⟩
    cases hq
  | some q =>
    obtain ⟨hq, hpart, hlt⟩ := hprior.earlier q rfl
    obtain ⟨hqdate, hqsum⟩ := (hpoints q).1 hq
    rw [hpart] at hqsum
    rw [Option.map_some, priorDate?, findRev?_takeWhile_iff hdate hdates]
    refine ⟨⟨⟨hqdate, hlt⟩, by rw [hqsum]; rfl⟩, fun d hd => ?_⟩
    obtain ⟨q', hq', hle⟩ := hrow d hd
    cases hq'
    exact hle

theorem percentChange_laggedRecords (hdates : dates.Pairwise (· < ·)) {sampled : List String}
    (hsampled : ∀ d, d ∈ sampled ↔ d ∈ dates) {r : ChangeRecord}
    (hr : r ∈ t.laggedRecords ⟨measure, .industry, f, sampled⟩) :
    r.percentChange = t.partChange measure f
      (t.priorDate? measure f dates r.date (r.entity, r.report)) r.date (r.entity, r.report) := by
  have hpoints : ∀ p, p ∈ (t.sums ⟨measure, .industry, f, sampled⟩).map Sum.point ↔
      p.date ∈ dates ∧ t.sumAt? measure f p.date p.part = some p.value := fun p => by
    rw [mem_points hcodes, hsampled]
  have hkeys := t.nodup_sums ⟨measure, .industry, f, sampled⟩
  rw [← keys_points] at hkeys
  rw [laggedRecords, points_sums] at hr
  obtain ⟨p, hp, prior, hprior, rfl⟩ := SeriesPoint.of_mem_lagChanges hkeys hr
  have hvalue : prior.bind (·.value) = (prior.map (·.date)).bind fun d =>
      (t.sumAt? measure f d p.part).join := by
    cases prior with
    | none => rfl
    | some q =>
      obtain ⟨hq, hpart, -⟩ := hprior.earlier q rfl
      have hsum := ((hpoints q).1 hq).2
      rw [hpart] at hsum
      rw [Option.map_some, Option.bind_some, Option.bind_some, hsum]
      rfl
  show percentChange (prior.bind (·.value)) p.value = t.partChange measure f
    (t.priorDate? measure f dates p.date p.part) p.date p.part
  rw [partChange, hvalue, map_date_prior hdates hpoints hp hprior, ((hpoints p).1 hp).2]
  rfl

section Offset

variable {start : String} (hstart : ∀ d ∈ dates, start ≤ d)

/-- A record compares a sum with that of the same part at the start. -/
theorem mem_offsetRecords_industry {r : ChangeRecord} :
    r ∈ t.offsetRecords ⟨measure, .industry, f, dates⟩ start ↔
      (r.date ∈ dates ∧ start ≤ r.date) ∧ ∃ current prior,
        t.sumAt? measure f r.date (r.entity, r.report) = some current ∧
        t.sumAt? measure f start (r.entity, r.report) = some prior ∧
        r = .make r.date r.entity (some start) r.report prior current := by
  rw [mem_offsetRecords]
  simp only [mem_sums_industry hcodes, List.mem_singleton]
  constructor
  · rintro ⟨c, ⟨hdate, hcurrent⟩, p, ⟨rfl, hprior⟩, hle, hentity, hline, rfl⟩
    rw [← hentity, ← hline] at hprior
    exact ⟨⟨hdate, hle⟩, c.value, p.value, hcurrent, hprior, rfl⟩
  · rintro ⟨⟨hdate, hle⟩, current, prior, hcurrent, hprior, hr⟩
    exact ⟨⟨r.date, r.entity, r.report, current⟩, ⟨hdate, hcurrent⟩,
      ⟨start, r.entity, r.report, prior⟩, ⟨rfl, hprior⟩, hle, rfl, rfl, hr⟩

theorem percentChange_offsetRecords {r : ChangeRecord}
    (hr : r ∈ t.offsetRecords ⟨measure, .industry, f, dates⟩ start) :
    r.percentChange = t.partChange measure f (some start) r.date (r.entity, r.report) := by
  obtain ⟨-, current, prior, hcurrent, hprior, hmake⟩ := (mem_offsetRecords_industry hcodes).1 hr
  rw [partChange, Option.bind_some, hcurrent, hprior, hmake]
  rfl

include hstart

theorem mem_keys_offsetRecords :
    (date, part) ∈ (t.offsetRecords ⟨measure, .industry, f, dates⟩ start).map
        ChangeRecord.key ↔
      date ∈ dates ∧ (t.sumAt? measure f date part).isSome ∧
        (t.sumAt? measure f start part).isSome := by
  simp only [List.mem_map, mem_offsetRecords_industry hcodes, Option.isSome_iff_exists]
  constructor
  · rintro ⟨r, ⟨⟨hdate, -⟩, current, prior, hcurrent, hprior, -⟩, hkey⟩
    obtain ⟨rfl, rfl⟩ := Prod.ext_iff.1 hkey
    exact ⟨hdate, ⟨current, hcurrent⟩, prior, hprior⟩
  · rintro ⟨hdate, ⟨current, hcurrent⟩, prior, hprior⟩
    exact ⟨.make date part.1 (some start) part.2 prior current,
      ⟨⟨hdate, hstart date hdate⟩, current, prior, hcurrent, hprior, rfl⟩, rfl⟩

end Offset

end Parts

end Tables

section Series

variable {records : List ChangeRecord} (hkeys : (records.map ChangeRecord.key).Nodup)

/-- The earlier of the dates comes first; at one date the industry and then the report line do. -/
def ComesBefore (dates : List String) (a b : String × String × Option String) : Prop :=
  dates.idxOf a.1 < dates.idxOf b.1 ∨ a.1 = b.1 ∧ PartBefore a.2 b.2

/-- One point for each of the dates and each part that is there, with the given change, the earlier
points first. -/
def IsSeries (dates : List String) (there : String → String × Option String → Prop)
    (change : String → String × Option String → Option Float) (series : List IndustryPoint) :
    Prop :=
  ∃ keys : List (String × String × Option String), keys.Pairwise (ComesBefore dates) ∧
    (∀ date part, (date, part) ∈ keys ↔ date ∈ dates ∧ there date part) ∧
    series = keys.map fun (date, part) => ⟨date, part.1, Industry.color part.1, change date part⟩

include hkeys

theorem ChangeRecord.pairwise_sortByTime :
    (sortByTime records).Pairwise fun r s => Tables.compareKeys r.key s.key = .lt :=
  pairwise_mergeSort_key hkeys

/-- Records with different keys have one order in time. -/
theorem ChangeRecord.sortByTime_perm {records' : List ChangeRecord}
    (hperm : records.Perm records') : sortByTime records = sortByTime records' :=
  show (records.mergeSort fun r s => (Tables.compareKeys r.key s.key).isLE)
    = records'.mergeSort fun r s => (Tables.compareKeys r.key s.key).isLE from
  mergeSort_key_perm hkeys hperm

/-- Records with different keys make a series when they are sorted by time. -/
theorem isSeries_sortByTime {dates : List String} (hdates : dates.Pairwise (· < ·))
    {there : String → String × Option String → Prop}
    {change : String → String × Option String → Option Float}
    (hthere : ∀ date part, (date, part) ∈ records.map ChangeRecord.key ↔
      date ∈ dates ∧ there date part)
    (hchange : ∀ r ∈ records, r.percentChange = change r.date (r.entity, r.report)) :
    IsSeries dates there change
      ((ChangeRecord.sortByTime records).map IndustryPoint.ofChange) := by
  have hmem : ∀ r, r ∈ ChangeRecord.sortByTime records ↔ r ∈ records := fun r =>
    List.mem_mergeSort
  have hdate : ∀ r ∈ records, r.date ∈ dates := fun r hr =>
    ((hthere r.date (r.entity, r.report)).1 (List.mem_map_of_mem hr)).1
  refine ⟨(ChangeRecord.sortByTime records).map ChangeRecord.key, ?_, fun date part => ?_, ?_⟩
  · refine List.pairwise_map.2 ((ChangeRecord.pairwise_sortByTime hkeys).imp_of_mem ?_)
    intro r s hr hs hlt
    rcases (Tables.compareKeys_lt_iff _ _).1 hlt with hlt | hpart
    · exact .inl (idxOf_lt_idxOf (hdate r ((hmem r).1 hr)) (hdate s ((hmem s).1 hs)) hdates hlt)
    · exact .inr hpart
  · rw [← hthere]
    simp only [List.mem_map, hmem]
  · rw [List.map_map]
    refine List.map_congr_left fun r hr => ?_
    rw [IndustryPoint.ofChange, hchange r ((hmem r).1 hr)]
    rfl

/-- The report lines of the records of one date and industry. -/
def linesAt (records : List ChangeRecord) (date industry : String) : List (Option String) :=
  (records.filter fun r => r.date = date ∧ r.entity = industry).map (·.report)

omit hkeys in
/-- A series has one point of a date and an industry for each record of theirs. -/
theorem countP_sortByTime (records : List ChangeRecord) (date industry : String) :
    ((ChangeRecord.sortByTime records).map IndustryPoint.ofChange).countP
        (fun p => p.date = date ∧ p.industry = industry)
      = (linesAt records date industry).length := by
  have hperm : (ChangeRecord.sortByTime records).Perm records := List.mergeSort_perm _ _
  rw [List.countP_map, hperm.countP_eq, List.countP_eq_length_filter, linesAt, List.length_map]
  rfl

omit hkeys in
theorem mem_linesAt {date industry : String} {line : Option String} :
    line ∈ linesAt records date industry ↔
      (date, industry, line) ∈ records.map ChangeRecord.key := by
  simp only [linesAt, List.mem_map, List.mem_filter, decide_eq_true_eq, ChangeRecord.key,
    Prod.mk.injEq, and_assoc]

theorem nodup_linesAt (date industry : String) : (linesAt records date industry).Nodup := by
  refine List.pairwise_map.2 (((List.pairwise_map.1 hkeys).filter _).imp_of_mem ?_)
  intro r s hr hs hne hline
  obtain ⟨hrdate, hrentity⟩ := of_decide_eq_true (List.mem_filter.1 hr).2
  obtain ⟨hsdate, hsentity⟩ := of_decide_eq_true (List.mem_filter.1 hs).2
  exact hne (by rw [ChangeRecord.key, ChangeRecord.key, hrdate, hsdate, hrentity, hsentity, hline])

/-- At one date an industry has no more points than there are report lines. -/
theorem countP_sortByTime_le {lines : List (Option String)}
    (hlines : ∀ r ∈ records, r.report ∈ lines) (date industry : String) :
    ((ChangeRecord.sortByTime records).map IndustryPoint.ofChange).countP
      (fun p => p.date = date ∧ p.industry = industry) ≤ lines.length := by
  rw [countP_sortByTime]
  refine ((nodup_linesAt hkeys date industry).subperm fun line hline => ?_).length_le
  obtain ⟨r, hr, heq⟩ := List.mem_map.1 (mem_linesAt.1 hline)
  rw [← show r.report = line from congrArg (·.2.2) heq]
  exact hlines r hr

omit hkeys in
/-- At one date an industry has a point for each report line with a record. -/
theorem le_countP_sortByTime {lines : List (Option String)} (hlines : lines.Nodup)
    {date industry : String}
    (hrecords : ∀ line ∈ lines, (date, industry, line) ∈ records.map ChangeRecord.key) :
    lines.length ≤ ((ChangeRecord.sortByTime records).map IndustryPoint.ofChange).countP
      (fun p => p.date = date ∧ p.industry = industry) := by
  rw [countP_sortByTime]
  exact (hlines.subperm fun line hline => mem_linesAt.2 (hrecords line hline)).length_le

end Series

end Bourse
