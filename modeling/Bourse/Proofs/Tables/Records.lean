import Mathlib.Data.List.Flatten
import Bourse.Proofs.Tables.Sums

/-!
# Compared sums

The records of a comparison stand for two sums of one entity and report line, at a current and at a
prior date (`mem_comparedRecords`). They are told apart by these four (`nodup_comparedRecords`),
whatever the aggregate.
-/

namespace Bourse

/-- The report lines of a measure, in lower case; what is not reported by line has none. -/
def Measure.lines : Measure → List (Option String)
  | .report lines => lines.map fun line => some (Text.lower line)
  | _ => [none]

/-- The date compared against, with the date, entity and report line of a record. -/
def ChangeRecord.span (r : ChangeRecord) : Option String × String × String × Option String :=
  (r.priorDate, r.key)

namespace Tables

variable (t : Tables)

theorem line_mem_of_mem_facts {measure : Measure} {fact : Fact} (h : fact ∈ t.facts measure) :
    fact.line ∈ measure.lines := by
  cases measure with
  | trade column =>
    obtain ⟨r, -, rfl⟩ := List.mem_map.1 h
    exact List.mem_singleton_self none
  | ratio code =>
    obtain ⟨r, -, rfl⟩ := List.mem_map.1 h
    exact List.mem_singleton_self none
  | report lines =>
    obtain ⟨r, hr, rfl⟩ := List.mem_map.1 h
    have hline := (List.mem_filter.1 hr).2
    rw [List.contains_iff_mem, List.mem_map] at hline
    obtain ⟨line, hmem, heq⟩ := hline
    exact List.mem_map.2 ⟨line, hmem, congrArg some heq⟩

theorem line_mem_of_mem_sums {a : Aggregate} {s : Sum} (h : s ∈ t.sums a) :
    s.line ∈ a.measure.lines := by
  obtain ⟨⟨r, hr, hkey⟩, -⟩ := (mem_sums_iff _ _).1 h
  obtain ⟨-, fact, hfact, hline⟩ := exists_fact_of_joined hr
  rw [← show r.line = s.line from congrArg (·.2.2) hkey, ← hline]
  exact t.line_mem_of_mem_facts hfact

/-- The records of a comparison, in the order of its rows. -/
def comparedRecords (a : Aggregate) (prior : List String) (strict : Bool) : List ChangeRecord :=
  (t.comparisonRows a prior strict).filterMap ChangeRecord.ofRow?

theorem comparedRecords_eq (a : Aggregate) (prior : List String) (strict : Bool) :
    t.comparedRecords a prior strict = (t.sums a).flatMap fun c =>
      ((t.sums { a with dates := prior }).filter (comparable strict c)).map fun p =>
        .make c.date c.entity (some p.date) c.line p.value c.value := by
  rw [comparedRecords, comparisonRows, List.filterMap_flatMap]
  refine congrArg (t.sums a).flatMap (funext fun c => ?_)
  rw [List.filterMap_map, ← List.filterMap_eq_map]
  exact List.filterMap_congr fun p _ => ChangeRecord.ofRow?_comparisonRow c p

variable {t} {a : Aggregate} {prior : List String} {strict : Bool}

theorem mem_comparedRecords {r : ChangeRecord} : r ∈ t.comparedRecords a prior strict ↔
    ∃ c ∈ t.sums a, ∃ p ∈ t.sums { a with dates := prior }, comparable strict c p = true ∧
      r = .make c.date c.entity (some p.date) c.line p.value c.value := by
  simp only [comparedRecords_eq, List.mem_flatMap, List.mem_map, List.mem_filter, and_assoc,
    eq_comm (a := r)]

/-- What the records of a comparison have in common. -/
structure Compares (a : Aggregate) (prior : List String) (r : ChangeRecord) : Prop where
  date : r.date ∈ a.dates
  priorDate : r.priorDate ∈ prior.map some
  report : r.report ∈ a.measure.lines

variable (t) in
theorem of_mem_comparedRecords {r : ChangeRecord} (hr : r ∈ t.comparedRecords a prior strict) :
    Compares a prior r := by
  obtain ⟨c, hc, p, hp, -, rfl⟩ := mem_comparedRecords.1 hr
  exact ⟨date_mem_of_mem_sums hc, List.mem_map_of_mem (date_mem_of_mem_sums hp),
    t.line_mem_of_mem_sums hc⟩

variable (t a prior strict) in
/-- Sums are told apart by date, entity and line, and the two of a record have one entity and
line. -/
theorem nodup_comparedRecords :
    ((t.comparedRecords a prior strict).map ChangeRecord.span).Nodup := by
  rw [comparedRecords_eq, List.map_flatMap, List.nodup_flatMap]
  refine ⟨fun c _ => ?_, (List.pairwise_map.1 (t.nodup_sums a)).imp fun {c c'} hne => ?_⟩
  · have hpriors := (List.pairwise_map.1 (t.nodup_sums { a with dates := prior })).filter
      (comparable strict c)
    rw [List.map_map]
    refine List.pairwise_map.2 (hpriors.imp_of_mem fun {p q} hp hq hne hspan => hne ?_)
    obtain ⟨-, hentity, hline⟩ := (comparable_iff _ _ _).1 (List.mem_filter.1 hp).2
    obtain ⟨-, hentity', hline'⟩ := (comparable_iff _ _ _).1 (List.mem_filter.1 hq).2
    have hdate : p.date = q.date := Option.some.inj (congrArg Prod.fst hspan)
    rw [Sum.key, Sum.key, hdate, ← hentity, ← hentity', ← hline, ← hline']
  · intro k hk hk'
    obtain ⟨r, hr, rfl⟩ := List.mem_map.1 hk
    obtain ⟨r', hr', hspan⟩ := List.mem_map.1 hk'
    obtain ⟨p, -, rfl⟩ := List.mem_map.1 hr
    obtain ⟨q, -, rfl⟩ := List.mem_map.1 hr'
    exact hne (congrArg Prod.snd hspan).symm

/-- Only one record compares given dates of an entity and a report line. -/
theorem eq_of_span_eq {r s : ChangeRecord} (hr : r ∈ t.comparedRecords a prior strict)
    (hs : s ∈ t.comparedRecords a prior strict) (h : r.span = s.span) : r = s :=
  List.inj_on_of_nodup_map (t.nodup_comparedRecords a prior strict) hr hs h

end Tables

end Bourse
