import Bourse.Desk.Rankings
import Bourse.Proofs.Change.Pivot
import Bourse.Proofs.Date.Order
import Bourse.Proofs.Gateway.Plain
import Bourse.Proofs.Tables.Series

/-!
# Rows in any order

What a desk makes of the rows of a statement, and why their order does not matter. Sessions are
sorted or told by their anchors (`SessionDates.ofRows_perm`). The records of a series are told apart
by what they are sorted by (`Plan.sorted_eq`), and of the records of a ranking no two share a slot
(`rankTop_pivot_perm`).
-/

namespace Bourse

theorem RecentSessions.ofDates_congr (table : SessionTable) {l m : List Date}
    (h : ∀ d, d ∈ l ↔ d ∈ m) : ofDates table l = ofDates table m := by
  rw [ofDates, ofDates, eraseReps_mergeSort_ge h]

theorem RecentSessions.ofRows_perm (table : SessionTable) {rows rows' : List Row}
    (h : rows.Perm rows') : ofRows table rows = ofRows table rows' :=
  ofDates_congr table fun _ => (h.filterMap _).mem_iff

theorem eq_nearestRows_of_perm {t : Tables} {table : SessionTable} {target : Date}
    {rows : List Row} (h : rows.Perm (t.nearestRows table target)) :
    rows = t.nearestRows table target := by
  revert h
  unfold Tables.nearestRows
  cases t.lastOnOrBefore table target.iso with
  | none => exact List.Perm.eq_nil
  | some date => exact List.perm_singleton.1

namespace SessionDates

variable {t : Tables} {table : SessionTable} {targets : SessionTargets}

/-- The session text of an anchor that is found by itself. -/
def anchorText? (t : Tables) (table : SessionTable) (targets : SessionTargets) :
    String → Option String
  | "last_quarter" => t.lastOnOrBefore table targets.lastQuarterEnd.iso
  | "first_year" => t.firstOnOrAfter table targets.firstOfYear.iso
  | "last_year" => t.firstOnOrAfter table targets.oneYearBack.iso
  | _ => none

theorem mem_anchorRows {row : Row} (h : row ∈ t.anchorRows table targets) :
    ∃ anchor text, row = Tables.anchorRow anchor text ∧
      (anchor = "recent" ∨ anchorText? t table targets anchor = some text) := by
  simp only [Tables.anchorRows, Tables.recentRows, List.mem_append, List.mem_map,
    Option.mem_toList, Option.map_eq_some_iff] at h
  rcases h with ((⟨text, -, rfl⟩ | ⟨text, htext, rfl⟩) | ⟨text, htext, rfl⟩) | ⟨text, htext, rfl⟩
  · exact ⟨_, text, rfl, .inl rfl⟩
  · exact ⟨_, text, rfl, .inr htext⟩
  · exact ⟨_, text, rfl, .inr htext⟩
  · exact ⟨_, text, rfl, .inr htext⟩

theorem anchorOfRow?_eq (anchor text : String) :
    anchorOfRow? (Tables.anchorRow anchor text) = (Date.readStart text).map (anchor, ·) := by
  have hanchor : (Tables.anchorRow anchor text).text? "anchor" = some anchor := rfl
  have hdate : (Tables.anchorRow anchor text).date? "session_date" = Date.readStart text := rfl
  simp only [anchorOfRow?, hanchor, hdate]
  cases Date.readStart text <;> rfl

/-- Every anchor but the recent sessions has one row at most. -/
theorem eq_of_anchor_eq {p q : String × Date}
    (hp : p ∈ (t.anchorRows table targets).filterMap anchorOfRow?)
    (hq : q ∈ (t.anchorRows table targets).filterMap anchorOfRow?) (h : p.1 = q.1)
    (hne : p.1 ≠ "recent") : p = q := by
  have htext : ∀ {x}, x ∈ (t.anchorRows table targets).filterMap anchorOfRow? →
      x.1 ≠ "recent" → ∃ text, anchorText? t table targets x.1 = some text ∧
        Date.readStart text = some x.2 := by
    intro x hx hne
    obtain ⟨row, hrow, hx⟩ := List.mem_filterMap.1 hx
    obtain ⟨anchor, text, rfl, htext⟩ := mem_anchorRows hrow
    rw [anchorOfRow?_eq] at hx
    obtain ⟨d, hd, rfl⟩ := Option.map_eq_some_iff.1 hx
    exact ⟨text, htext.resolve_left hne, hd⟩
  obtain ⟨text, hptext, hpdate⟩ := htext hp hne
  obtain ⟨text', hqtext, hqdate⟩ := htext hq (h ▸ hne)
  rw [← h, hptext] at hqtext
  obtain rfl := Option.some.inj hqtext
  exact Prod.ext h (Option.some.inj (hpdate.symm.trans hqdate))

variable {rows : List Row} (h : rows.Perm (t.anchorRows table targets))

include h

theorem named_perm {anchor : String} (hne : anchor ≠ "recent") :
    named table rows anchor = named table (t.anchorRows table targets) anchor := by
  have hperm := h.filterMap anchorOfRow?
  rw [named, named, findRev?_perm hperm fun p hp q hq hpa hqa => ?_]
  rw [beq_iff_eq] at hpa hqa
  exact eq_of_anchor_eq (hperm.mem_iff.1 hp) (hperm.mem_iff.1 hq) (hpa.trans hqa.symm)
    (hpa ▸ hne)

theorem ofRows_perm : ofRows table rows = ofRows table (t.anchorRows table targets) := by
  have hrecent := RecentSessions.ofDates_congr table fun d =>
    (((h.filterMap anchorOfRow?).filter (·.1 == "recent")).map (·.2)).mem_iff
  simp only [ofRows, hrecent, named_perm h (by decide : "last_quarter" ≠ "recent"),
    named_perm h (by decide : "first_year" ≠ "recent"),
    named_perm h (by decide : "last_year" ≠ "recent")]

end SessionDates

/-- The statement that a plan asks. -/
def Plan.statement (metric : Metric) (filter : Filter) : Plan → Statement
  | compare current prior strict =>
    .comparison ⟨metric.measure, metric.entity, filter, current⟩ prior strict
  | lag dates => .series ⟨metric.measure, metric.entity, filter, dates⟩

/-- The records that a plan makes of the rows of its statement. -/
def Plan.records : Plan → List Row → List ChangeRecord
  | compare .., rows => rows.filterMap ChangeRecord.ofRow?
  | lag _, rows => SeriesPoint.lagChanges (rows.filterMap SeriesPoint.ofRow?)

/-- Records in the order of a metric. -/
def Metric.sorted (metric : Metric) (records : List ChangeRecord) : List ChangeRecord :=
  if metric.isPointInTime then ChangeRecord.sortByRank records
  else ChangeRecord.sortByTime records

theorem Metric.sorted_perm (metric : Metric) (records : List ChangeRecord) :
    (metric.sorted records).Perm records := by
  unfold sorted
  split
  · exact List.mergeSort_perm _ _
  · exact List.mergeSort_perm _ _

theorem Desk.execute_eq (metric : Metric) (filter : Filter) (plan : Plan) :
    execute metric filter plan = (fun rows => metric.sorted (plan.records rows)) <$>
      Analysis.ask (plan.statement metric filter) := by
  cases plan <;> simp only [execute, Plan.statement, Plan.records, Metric.sorted, map_eq_pure_bind,
    pure_bind]

/-- The slots that the records of a plan are laid out in. -/
def Plan.slots (plan : Plan) : Option (List String) → PivotSlots
  | some lines => .byLine lines
  | none => .byDate plan.prior

theorem Desk.pivoted_eq (desk : Desk) (metric : Metric) (filter : Filter)
    (lines : Option (List String)) : desk.pivoted metric filter lines
      = desk.plan metric none >>= fun plan =>
          pivot (plan.slots lines) <$> execute metric filter plan := by
  simp only [pivoted, map_eq_pure_bind]
  cases lines <;> rfl

section Records

variable {t : Tables} {metric : Metric} {filter : Filter} {plan : Plan} {rows : List Row}
  (h : rows.Perm (t.answer (plan.statement metric filter)))

include h

theorem Plan.records_perm :
    (plan.records rows).Perm (plan.records (t.answer (plan.statement metric filter))) := by
  cases plan with
  | compare current prior strict => exact h.filterMap _
  | lag dates =>
    have hkeys : (((t.answer (Plan.statement metric filter (.lag dates))).filterMap
        SeriesPoint.ofRow?).map SeriesPoint.key).Nodup := by
      change ((((t.sums _).map Tables.sumRow).filterMap SeriesPoint.ofRow?).map _).Nodup
      rw [Tables.points_sums, Tables.keys_points]
      exact t.nodup_sums _
    have hpoints := h.filterMap SeriesPoint.ofRow?
    exact .of_eq (SeriesPoint.lagChanges_perm ((hpoints.map _).nodup_iff.2 hkeys) hpoints)

/-- Records that are told apart by date, entity and report line have one order in time. -/
theorem Plan.sorted_eq (hmetric : metric.isPointInTime = false)
    (hkeys : ((plan.records (t.answer (plan.statement metric filter))).map
      ChangeRecord.key).Nodup) :
    metric.sorted (plan.records rows)
      = metric.sorted (plan.records (t.answer (plan.statement metric filter))) := by
  have hperm := Plan.records_perm h
  rw [Metric.sorted, Metric.sorted, hmetric]
  exact ChangeRecord.sortByTime_perm ((hperm.map ChangeRecord.key).nodup_iff.2 hkeys) hperm

end Records

/-- All members are the same. -/
def AllSame {α : Type} (l : List α) : Prop :=
  ∀ x ∈ l, ∀ y ∈ l, x = y

theorem allSame_singleton {α : Type} (a : α) : AllSame [a] := by
  intro x hx y hy
  rw [List.mem_singleton.1 hx, List.mem_singleton.1 hy]

theorem allSame_of_length_le {α : Type} {l : List α} (h : l.length ≤ 1) : AllSame l := by
  match l with
  | [] => exact fun x hx => absurd hx List.not_mem_nil
  | [a] => exact allSame_singleton a

section Slots

variable {t : Tables} {a : Aggregate} {prior : List String} {strict : Bool}
  (hcurrent : AllSame a.dates)

include hcurrent

/-- At one current date and without report lines, a prior date tells an entity's records apart. -/
theorem distinct_byDate (hlines : AllSame a.measure.lines) (dates : List String) :
    (PivotSlots.byDate dates).Distinct (t.comparedRecords a prior strict) := by
  intro label _ r hr s hs hrl hsl hentity
  have hrc := t.of_mem_comparedRecords hr
  have hsc := t.of_mem_comparedRecords hs
  have hpriors : r.priorDate = s.priorDate :=
    (beq_iff_eq.1 hrl).trans (beq_iff_eq.1 hsl).symm
  refine Tables.eq_of_span_eq hr hs (Prod.ext hpriors (Prod.ext ?_ (Prod.ext hentity ?_)))
  · exact hcurrent _ hrc.date _ hsc.date
  · exact hlines _ hrc.report _ hsc.report

/-- At one current and one prior date, a report line tells an entity's records apart. -/
theorem distinct_byLine (hprior : AllSame prior)
    (hlines : ∀ line ∈ a.measure.lines, ∀ line' ∈ a.measure.lines,
      line.map Text.lower = line'.map Text.lower → line = line') (lines : List String) :
    (PivotSlots.byLine lines).Distinct (t.comparedRecords a prior strict) := by
  intro label _ r hr s hs hrl hsl hentity
  have hrc := t.of_mem_comparedRecords hr
  have hsc := t.of_mem_comparedRecords hs
  have hlower : ∀ {x : ChangeRecord}, (PivotSlots.byLine lines).accepts label x = true →
      x.report.map Text.lower = some (Text.lower label) := by
    intro x hx
    obtain ⟨line, hline, heq⟩ := (Option.any_eq_true _ _).1 hx
    rw [hline, Option.map_some, beq_iff_eq.1 heq]
  have hpriors : r.priorDate = s.priorDate := by
    obtain ⟨p, hp, hrp⟩ := List.mem_map.1 hrc.priorDate
    obtain ⟨q, hq, hsq⟩ := List.mem_map.1 hsc.priorDate
    rw [← hrp, ← hsq, hprior p hp q hq]
  refine Tables.eq_of_span_eq hr hs (Prod.ext hpriors (Prod.ext ?_ (Prod.ext hentity ?_)))
  · exact hcurrent _ hrc.date _ hsc.date
  · exact hlines _ hrc.report _ hsc.report ((hlower hrl).trans (hlower hsl).symm)

/-- Between two dates and without report lines there is one record of each entity. -/
theorem nodup_entities (hlines : AllSame a.measure.lines) (hprior : AllSame prior) :
    ((t.comparedRecords a prior strict).map (·.entity)).Nodup := by
  refine List.pairwise_map.2 ((List.pairwise_map.1
    (t.nodup_comparedRecords a prior strict)).imp_of_mem fun {r s} hr hs hne hentity => hne ?_)
  have hrc := t.of_mem_comparedRecords hr
  have hsc := t.of_mem_comparedRecords hs
  obtain ⟨p, hp, hrp⟩ := List.mem_map.1 hrc.priorDate
  obtain ⟨q, hq, hsq⟩ := List.mem_map.1 hsc.priorDate
  have hpriors : r.priorDate = s.priorDate := by
    rw [← hrp, ← hsq, hprior p hp q hq]
  exact Prod.ext hpriors (Prod.ext (hcurrent _ hrc.date _ hsc.date)
    (Prod.ext hentity (hlines _ hrc.report _ hsc.report)))

end Slots

theorem codes_pivot (slots : PivotSlots) (records : List ChangeRecord) {α : Type}
    {row : PivotRow → α} {code : α → String} (hcode : ∀ r, code (row r) = r.entity) :
    ((pivot slots records).map row).map code = pivotEntities slots records := by
  rw [List.map_map, ← entities_pivot]
  exact List.map_congr_left fun r _ => hcode r

/-- A ranking of pivoted records is the same whatever order they come in, when no slot has two
records of one entity. -/
theorem rankTop_pivot_perm {slots : PivotSlots} {records records' : List ChangeRecord}
    (hperm : records.Perm records') (hdistinct : slots.Distinct records') {α : Type}
    {row : PivotRow → α} {value : α → Option Float} {code : α → String}
    (hcode : ∀ r, code (row r) = r.entity) (limit : ℕ) :
    rankTop limit value code ((pivot slots records).map row)
      = rankTop limit value code ((pivot slots records').map row) := by
  refine (rankTop_perm limit ?_ ((pivot_perm hdistinct hperm.symm).map row)).symm
  rw [codes_pivot slots records' hcode]
  exact nodup_pivotEntities slots records'

end Bourse
