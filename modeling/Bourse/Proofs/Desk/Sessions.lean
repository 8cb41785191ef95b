import Bourse.Desk.Sessions
import Bourse.Proofs.Date.Targets
import Bourse.Proofs.Gateway
import Bourse.Proofs.Tables.Dates

/-!
# Resolved sessions

What the named sessions of a table are, by the set of its dates alone (`SessionDates.Of`), and which
of them is the first one missing (`missingAnchor?`). The resolution finds just these sessions, or
names that anchor and stores nothing (`run_sessionDates`), so it succeeds on the sets with five
dates of which one lies before the quarter and one in the year (`sessionDates_resolved`).
-/

namespace Bourse

/-! ## The named sessions -/

/-- The five named sessions of a table with the dates of `S`, on the day `today`. -/
structure SessionDates.Of (S : Finset Date) (today : Date) (s : SessionDates) : Prop where
  latest : IsGreatest {d | d ∈ S} s.latest
  lastFive : s.lastFive ∈ S ∧ (S.filter (s.lastFive < ·)).card = 4
  lastQuarter : IsGreatest {d | d ∈ S ∧ today.BeforeQuarter d} s.lastQuarter
  firstYear : IsLeast {d | d ∈ S ∧ today.SinceNewYear d} s.firstYear
  lastYear : IsLeast {d | d ∈ S ∧ today.SinceYearBack d} s.lastYear

/-- The two recent sessions of a table with the dates of `S`. -/
structure RecentSessions.Of (S : Finset Date) (s : RecentSessions) : Prop where
  latest : IsGreatest {d | d ∈ S} s.latest
  lastFive : s.lastFive ∈ S ∧ (S.filter (s.lastFive < ·)).card = 4

/-- The first named session that a table with the dates of `S` does not have. -/
def missingAnchor? (S : Finset Date) (today : Date) : Option String :=
  if S.card = 0 then some "latest"
  else if S.card < 5 then some "last_five"
  else if ∃ d ∈ S, today.BeforeQuarter d then
    if ∃ d ∈ S, today.SinceNewYear d then
      if ∃ d ∈ S, today.SinceYearBack d then none else some "last_year"
    else some "first_year"
  else some "last_quarter"

/-- A session in the year is one in the last twelve months, so that one is never the first to be
missing. -/
theorem missingAnchor?_ne_last_year (S : Finset Date) (today : Date) :
    missingAnchor? S today ≠ some "last_year" := by
  unfold missingAnchor?
  split_ifs with h0 h5 hquarter hyear hback
  case neg =>
    obtain ⟨d, hd, hd'⟩ := hyear
    exact absurd ⟨d, hd, hd'.sinceYearBack⟩ hback
  all_goals decide

/-- All sessions are there when there are five, one before the quarter and one in the year. -/
theorem missingAnchor?_eq_none_iff (S : Finset Date) (today : Date) :
    missingAnchor? S today = none ↔ 5 ≤ S.card ∧ (∃ d ∈ S, today.BeforeQuarter d) ∧
      ∃ d ∈ S, today.SinceNewYear d := by
  have hlast := missingAnchor?_ne_last_year S today
  unfold missingAnchor? at hlast ⊢
  split_ifs at hlast ⊢ with h0 h5 hquarter hyear hback
  · simp only [false_iff, not_and]
    omega
  · simp only [false_iff, not_and]
    omega
  · exact ⟨fun _ => ⟨by omega, hquarter, hyear⟩, fun _ => rfl⟩
  · exact absurd rfl hlast
  · simp only [false_iff]
    exact fun h => hyear h.2.2
  · simp only [false_iff]
    exact fun h => hquarter h.2.1

/-- A date with later ones is before the latest. -/
theorem lt_of_card_filter {S : Finset Date} {d latest : Date} (hlater : (S.filter (d < ·)).card = 4)
    (hlatest : IsGreatest {d | d ∈ S} latest) : d < latest := by
  have hpos : 0 < (S.filter (d < ·)).card := by omega
  obtain ⟨e, he⟩ := Finset.card_pos.1 hpos
  obtain ⟨hmem, hlt⟩ := Finset.mem_filter.1 he
  exact hlt.trans_le (hlatest.2 hmem)

namespace SessionDates.Of

variable {S : Finset Date} {today : Date} {s : SessionDates} (h : s.Of S today)

include h

theorem lastFive_lt : s.lastFive < s.latest :=
  lt_of_card_filter h.lastFive.2 h.latest

theorem lastQuarter_le : s.lastQuarter ≤ s.latest :=
  h.latest.2 h.lastQuarter.1.1

theorem firstYear_le : s.firstYear ≤ s.latest :=
  h.latest.2 h.firstYear.1.1

theorem lastYear_le_firstYear : s.lastYear ≤ s.firstYear :=
  h.lastYear.2 ⟨h.firstYear.1.1, h.firstYear.1.2.sinceYearBack⟩

end SessionDates.Of

/-! ## Rows -/

/-- The date that was found for an anchor, or that it is missing. -/
def orMissing (table : SessionTable) (anchor : String) : Option Date → Except Fault Date
  | some d => .ok d
  | none => .error (.missingAnchor anchor table)

theorem anchorOfRow?_anchorRow (anchor : String) {d : Date} (hd : 0 ≤ d.year ∧ d.year ≤ 9999) :
    SessionDates.anchorOfRow? (Tables.anchorRow anchor d.iso) = some (anchor, d) := by
  have hanchor : (Tables.anchorRow anchor d.iso).text? "anchor" = some anchor := rfl
  have hdate : (Tables.anchorRow anchor d.iso).date? "session_date" = Date.readStart d.iso := rfl
  simp only [SessionDates.anchorOfRow?, hanchor, hdate, Date.readStart_iso d hd]
  rfl

theorem filterMap_anchorRow (anchor : String) : ∀ {dates : List Date},
    (∀ d ∈ dates, 0 ≤ d.year ∧ d.year ≤ 9999) →
      ((dates.map Date.iso).map (Tables.anchorRow anchor)).filterMap SessionDates.anchorOfRow?
        = dates.map (anchor, ·)
  | [], _ => rfl
  | d :: dates, h => by
    have ih := filterMap_anchorRow anchor fun e he => h e (List.mem_cons_of_mem d he)
    rw [List.map_cons, List.map_cons, List.filterMap_cons_some
      (anchorOfRow?_anchorRow anchor (h d List.mem_cons_self)), ih, List.map_cons]

theorem findRev?_append {α : Type} (p : α → Bool) (l m : List α) :
    (l ++ m).findRev? p = (m.findRev? p).or (l.findRev? p) := by
  simp only [List.findRev?_eq_find?_reverse, List.reverse_append, List.find?_append]

/-- Among dates with one tag the last one has it, and no other tag is found. -/
theorem findRev?_tagged (tag anchor : String) (dates : List Date) :
    (dates.map (tag, ·)).findRev? (·.1 == anchor)
      = if tag = anchor then dates.getLast?.map (tag, ·) else none := by
  rw [List.findRev?_eq_find?_reverse, ← List.map_reverse, List.find?_map]
  split_ifs with h
  · subst h
    have htrue : ((fun pair : String × Date => pair.1 == tag) ∘ fun d => (tag, d))
        = fun _ => true := by
      funext d
      exact beq_self_eq_true tag
    rw [htrue, List.getLast?_eq_head?_reverse]
    cases dates.reverse <;> rfl
  · have hfalse : ((fun pair : String × Date => pair.1 == anchor) ∘ fun d => (tag, d))
        = fun _ => false := by
      funext d
      exact beq_false_of_ne h
    rw [hfalse, List.find?_eq_none.2 fun _ _ => Bool.false_ne_true]
    rfl

theorem filter_tagged (tag anchor : String) (dates : List Date) :
    (dates.map (tag, ·)).filter (·.1 == anchor)
      = if tag = anchor then dates.map (tag, ·) else [] := by
  split_ifs with h
  · refine List.filter_eq_self.2 fun pair hpair => ?_
    obtain ⟨d, -, rfl⟩ := List.mem_map.1 hpair
    simp [h]
  · refine List.filter_eq_nil_iff.2 fun pair hpair => ?_
    obtain ⟨d, -, rfl⟩ := List.mem_map.1 hpair
    simp [h]

section Rows

variable {t : Tables} {table : SessionTable} {S : Finset Date} (h : t.Dated table S)

theorem ofDates_eq (S : Finset Date) (table : SessionTable) :
    RecentSessions.ofDates table ((descending S).take 5) = do
      let latest ← orMissing table "latest" (descending S)[0]?
      let lastFive ← orMissing table "last_five" (descending S)[4]?
      return ⟨latest, lastFive⟩ := by
  have hsessions : (((descending S).take 5).mergeSort fun a b => b ≤ a).eraseReps
      = (descending S).take 5 :=
    eraseReps_mergeSort_descending ((pairwise_descending S).sublist (List.take_sublist 5 _))
      fun _ => Iff.rfl
  simp only [RecentSessions.ofDates, hsessions, List.getElem?_take]
  rcases (descending S)[0]? with _ | latest
  · rfl
  · rcases (descending S)[4]? with _ | lastFive <;> rfl

include h

theorem year_of_mem {dates : List Date} (hdates : ∀ d ∈ dates, d ∈ descending S) :
    ∀ d ∈ dates, 0 ≤ d.year ∧ d.year ≤ 9999 :=
  fun d hd => h.year_mem d (mem_descending.1 (hdates d hd))

theorem filterMap_recentRows : (t.recentRows table).filterMap SessionDates.anchorOfRow?
    = ((descending S).take 5).map ("recent", ·) := by
  rw [Tables.recentRows, h.latestFirst_eq, ← List.map_take]
  exact filterMap_anchorRow _ (year_of_mem h fun d hd => List.mem_of_mem_take hd)

theorem recentSessions_ofRows : RecentSessions.ofRows table (t.recentRows table) = do
    let latest ← orMissing table "latest" (descending S)[0]?
    let lastFive ← orMissing table "last_five" (descending S)[4]?
    return ⟨latest, lastFive⟩ := by
  have hdates : (t.recentRows table).filterMap (·.date? "session_date")
      = (descending S).take 5 := by
    rw [Tables.recentRows, h.latestFirst_eq, ← List.map_take, List.filterMap_map,
      List.filterMap_map]
    refine (List.filterMap_congr fun d hd => ?_).trans List.filterMap_some
    exact Date.readStart_iso d (h.year_mem d (mem_descending.1 (List.mem_of_mem_take hd)))
  rw [RecentSessions.ofRows, hdates, ofDates_eq]

theorem filterMap_anchorRows {today : Date} (htoday : 1 ≤ today.year ∧ today.year ≤ 9999) :
    (t.anchorRows table (sessionTargets today)).filterMap SessionDates.anchorOfRow?
      = ((descending S).take 5).map ("recent", ·)
        ++ ((descending S).find? (today.BeforeQuarter ·)).toList.map ("last_quarter", ·)
        ++ ((descending S).findRev? (today.SinceNewYear ·)).toList.map ("first_year", ·)
        ++ ((descending S).findRev? (today.SinceYearBack ·)).toList.map ("last_year", ·) := by
  have hfound : ∀ (anchor : String) (found : Option Date), (∀ d ∈ found, d ∈ descending S) →
      ((found.map Date.iso).map (Tables.anchorRow anchor)).toList.filterMap
        SessionDates.anchorOfRow? = found.toList.map (anchor, ·) := by
    intro anchor found hmem
    rw [← filterMap_anchorRow anchor (year_of_mem h fun d hd => hmem d (by simpa using hd))]
    cases found <;> rfl
  have hback := SessionTargets.oneYearBack_year htoday
  have hfirst := @SessionTargets.firstOfYear_year today
  have hrev : ∀ {p : Date → Bool} {d}, (descending S).findRev? p = some d → d ∈ descending S := by
    intro p d hd
    rw [List.findRev?_eq_find?_reverse] at hd
    exact List.mem_reverse.1 (List.mem_of_find?_eq_some hd)
  rw [Tables.anchorRows, List.filterMap_append, List.filterMap_append, List.filterMap_append,
    filterMap_recentRows h, h.lastOnOrBefore_eq (SessionTargets.lastQuarterEnd_year htoday),
    h.firstOnOrAfter_eq (by omega), h.firstOnOrAfter_eq (by omega),
    hfound _ _ fun d hd => List.mem_of_find?_eq_some hd, hfound _ _ fun d hd => hrev hd,
    hfound _ _ fun d hd => hrev hd]
  simp only [SessionTargets.le_lastQuarterEnd_iff htoday, SessionTargets.firstOfYear_le_iff,
    SessionTargets.oneYearBack_le_iff htoday]

/-- The named sessions are looked for one after another. -/
theorem sessionDates_ofRows {today : Date} (htoday : 1 ≤ today.year ∧ today.year ≤ 9999) :
    SessionDates.ofRows table (t.anchorRows table (sessionTargets today)) = do
      let latest ← orMissing table "latest" (descending S)[0]?
      let lastFive ← orMissing table "last_five" (descending S)[4]?
      let lastQuarter ← orMissing table "last_quarter"
        ((descending S).find? (today.BeforeQuarter ·))
      let firstYear ← orMissing table "first_year"
        ((descending S).findRev? (today.SinceNewYear ·))
      let lastYear ← orMissing table "last_year"
        ((descending S).findRev? (today.SinceYearBack ·))
      return ⟨latest, lastFive, lastQuarter, firstYear, lastYear⟩ := by
  have hpairs := filterMap_anchorRows h htoday
  have hnamed : ∀ (anchor : String) (found : Option Date),
      ((t.anchorRows table (sessionTargets today)).filterMap SessionDates.anchorOfRow?).findRev?
        (·.1 == anchor) = found.map (anchor, ·) →
      SessionDates.named table (t.anchorRows table (sessionTargets today)) anchor
        = orMissing table anchor found := by
    intro anchor found hfound
    rw [SessionDates.named, hfound]
    cases found <;> rfl
  have hlast : ∀ o : Option Date, o.toList.getLast? = o := by
    intro o
    cases o <;> rfl
  have hrecent : (((t.anchorRows table (sessionTargets today)).filterMap
      SessionDates.anchorOfRow?).filter (·.1 == "recent")).map (·.2)
        = (descending S).take 5 := by
    rw [hpairs]
    simp only [List.filter_append, filter_tagged, String.reduceEq, if_true, if_false,
      List.append_nil, List.map_map]
    exact List.map_id _
  rw [SessionDates.ofRows, hrecent, ofDates_eq,
    hnamed "last_quarter" ((descending S).find? (today.BeforeQuarter ·)),
    hnamed "first_year" ((descending S).findRev? (today.SinceNewYear ·)),
    hnamed "last_year" ((descending S).findRev? (today.SinceYearBack ·))]
  · simp only [bind_assoc, pure_bind]
  all_goals
    rw [hpairs]
    simp only [findRev?_append, findRev?_tagged, hlast, String.reduceEq, if_true, if_false,
      Option.none_or, Option.or_none]

/-- The rows of a table give its recent sessions, or the first one that is missing. -/
theorem recentSessions_outcome :
    (5 ≤ S.card → ∃ s : RecentSessions, s.Of S ∧
        RecentSessions.ofRows table (t.recentRows table) = .ok s) ∧
      (S.card < 5 → RecentSessions.ofRows table (t.recentRows table)
        = .error (.missingAnchor (if S.card = 0 then "latest" else "last_five") table)) := by
  rw [recentSessions_ofRows h]
  constructor
  · intro hcard
    obtain ⟨latest, hlatest⟩ := exists_getElem?_descending (by omega : 0 < S.card)
    obtain ⟨lastFive, hfive⟩ := exists_getElem?_descending (by omega : 4 < S.card)
    refine ⟨⟨latest, lastFive⟩,
      ⟨isGreatest_of_head_descending hlatest, getElem?_descending_iff.1 hfive⟩, ?_⟩
    rw [hlatest, hfive]
    rfl
  · intro hcard
    split_ifs with h0
    · rw [getElem?_descending_eq_none (by omega)]
      rfl
    · obtain ⟨latest, hlatest⟩ := exists_getElem?_descending (by omega : 0 < S.card)
      rw [hlatest, getElem?_descending_eq_none (by omega)]
      rfl

/-- The rows of a table give its named sessions, or the first one that is missing. -/
theorem sessionDates_outcome {today : Date} (htoday : 1 ≤ today.year ∧ today.year ≤ 9999) :
    (missingAnchor? S today = none → ∃ s : SessionDates, s.Of S today ∧
        SessionDates.ofRows table (t.anchorRows table (sessionTargets today)) = .ok s) ∧
      ∀ anchor, missingAnchor? S today = some anchor →
        SessionDates.ofRows table (t.anchorRows table (sessionTargets today))
          = .error (.missingAnchor anchor table) := by
  rw [sessionDates_ofRows h htoday]
  unfold missingAnchor?
  split_ifs with h0 h5 hquarter hyear hback
  · refine ⟨nofun, fun anchor ha => ?_⟩
    obtain rfl := Option.some.inj ha
    rw [getElem?_descending_eq_none (by omega)]
    rfl
  · refine ⟨nofun, fun anchor ha => ?_⟩
    obtain rfl := Option.some.inj ha
    obtain ⟨latest, hlatest⟩ := exists_getElem?_descending (by omega : 0 < S.card)
    rw [hlatest, getElem?_descending_eq_none (by omega)]
    rfl
  all_goals
    obtain ⟨latest, hlatest⟩ := exists_getElem?_descending (by omega : 0 < S.card)
    obtain ⟨lastFive, hfive⟩ := exists_getElem?_descending (by omega : 4 < S.card)
    rw [hlatest, hfive]
  · obtain ⟨lastQuarter, hq⟩ := exists_find?_descending hquarter
    obtain ⟨firstYear, hy⟩ := exists_findRev?_descending hyear
    obtain ⟨lastYear, hb⟩ := exists_findRev?_descending hback
    rw [hq, hy, hb]
    refine ⟨fun _ => ⟨⟨latest, lastFive, lastQuarter, firstYear, lastYear⟩, ?_, rfl⟩, nofun⟩
    exact ⟨isGreatest_of_head_descending hlatest, getElem?_descending_iff.1 hfive,
      find?_descending_iff.1 hq, findRev?_descending_iff.1 hy, findRev?_descending_iff.1 hb⟩
  · obtain ⟨d, hd, hd'⟩ := hyear
    exact absurd ⟨d, hd, hd'.sinceYearBack⟩ hback
  · obtain ⟨lastQuarter, hq⟩ := exists_find?_descending hquarter
    refine ⟨nofun, fun anchor ha => ?_⟩
    obtain rfl := Option.some.inj ha
    rw [hq, (find?_descending_eq_none hyear).2]
    rfl
  · refine ⟨nofun, fun anchor ha => ?_⟩
    obtain rfl := Option.some.inj ha
    rw [(find?_descending_eq_none hquarter).1]
    rfl

end Rows

/-! ## Runs -/

section Runs

variable (desk : Desk) {t : Tables} {table : SessionTable} {S : Finset Date} {b : Backend}

theorem run_sessionDates (hb : b.ColdAt t (Topic.sessionDates table).key.text) : ∃ b',
    (desk.sessionDates table).run.run Backend.services b
        = (SessionDates.ofRows table (t.anchorRows table (sessionTargets desk.today)), b') ∧
      ∀ e, SessionDates.ofRows table (t.anchorRows table (sessionTargets desk.today)) = .error e →
        b.Unstored b' :=
  Gateway.run_asked desk.sessionTtl (.sessionAnchors table (sessionTargets desk.today))
    (SessionDates.ofRows table) hb

theorem run_recentSessions (hb : b.ColdAt t (Topic.recentSessions table).key.text) : ∃ b',
    (desk.recentSessions table).run.run Backend.services b
      = (RecentSessions.ofRows table (t.recentRows table), b') :=
  have ⟨b', hrun, _⟩ := Gateway.run_asked desk.sessionTtl (.recentSessions table)
    (RecentSessions.ofRows table) hb
  ⟨b', hrun⟩

/-- How a desk resolves the sessions of a table with the dates of `S`: the named ones are found when
there are five dates, one before the quarter and one in the year, else the first one missing is
named and nothing is stored; the recent ones are found when there are five, and are the same. -/
structure Desk.Resolves (desk : Desk) (table : SessionTable) (S : Finset Date) (b : Backend) :
    Prop where
  found_iff : (∃ s, ((desk.sessionDates table).run.run Backend.services b).1 = .ok s) ↔
    5 ≤ S.card ∧ (∃ d ∈ S, desk.today.BeforeQuarter d) ∧ ∃ d ∈ S, desk.today.SinceNewYear d
  found : ∀ s, ((desk.sessionDates table).run.run Backend.services b).1 = .ok s →
    s.Of S desk.today ∧ s.lastFive < s.latest ∧ s.lastQuarter ≤ s.latest ∧
      s.firstYear ≤ s.latest ∧ s.lastYear ≤ s.latest ∧ s.lastYear ≤ s.firstYear
  missing : ∀ e, ((desk.sessionDates table).run.run Backend.services b).1 = .error e →
    (∃ anchor, missingAnchor? S desk.today = some anchor ∧ anchor ≠ "last_year" ∧
        e = .missingAnchor anchor table) ∧
      b.Unstored ((desk.sessionDates table).run.run Backend.services b).2
  recent_iff : (∃ r, ((desk.recentSessions table).run.run Backend.services b).1 = .ok r) ↔
    5 ≤ S.card
  recent : ∀ r, ((desk.recentSessions table).run.run Backend.services b).1 = .ok r → r.Of S ∧
    ∀ s, ((desk.sessionDates table).run.run Backend.services b).1 = .ok s →
      r.latest = s.latest ∧ r.lastFive = s.lastFive

/-- What the rows of a table give are its named sessions. -/
theorem of_ofRows (h : t.Dated table S) {today : Date}
    (htoday : 1 ≤ today.year ∧ today.year ≤ 9999) {s : SessionDates}
    (hs : SessionDates.ofRows table (t.anchorRows table (sessionTargets today)) = .ok s) :
    missingAnchor? S today = none ∧ s.Of S today := by
  obtain ⟨hfound, hmissing⟩ := sessionDates_outcome h htoday
  cases hanchor : missingAnchor? S today with
  | none =>
    obtain ⟨s', hs', heq⟩ := hfound hanchor
    rw [heq] at hs
    exact ⟨rfl, Except.ok.inj hs ▸ hs'⟩
  | some anchor =>
    rw [hmissing anchor hanchor] at hs
    cases hs

theorem of_recentRows (h : t.Dated table S) {r : RecentSessions}
    (hr : RecentSessions.ofRows table (t.recentRows table) = .ok r) : 5 ≤ S.card ∧ r.Of S := by
  obtain ⟨hfive, hfew⟩ := recentSessions_outcome h
  obtain hcard | hcard := Nat.lt_or_ge S.card 5
  · rw [hfew hcard] at hr
    cases hr
  · obtain ⟨r', hr', heq⟩ := hfive hcard
    rw [heq] at hr
    exact ⟨hcard, Except.ok.inj hr ▸ hr'⟩

/-- Over a cold cache the sessions of a table are resolved from its dates alone. -/
theorem sessionDates_resolved (h : t.Dated table S)
    (htoday : 1 ≤ desk.today.year ∧ desk.today.year ≤ 9999)
    (hnamed : b.ColdAt t (Topic.sessionDates table).key.text)
    (hrecent : b.ColdAt t (Topic.recentSessions table).key.text) : desk.Resolves table S b := by
  obtain ⟨hfound, hmissing⟩ := sessionDates_outcome h htoday
  obtain ⟨b', hrun, hunstored⟩ := run_sessionDates desk hnamed
  obtain ⟨b'', hrun'⟩ := run_recentSessions desk hrecent
  refine ⟨?found_iff, ?found, ?missing, ?recent_iff, ?recent⟩
  case found_iff =>
    rw [hrun, ← missingAnchor?_eq_none_iff]
    exact ⟨fun ⟨s, hs⟩ => (of_ofRows h htoday hs).1, fun hnone =>
      have ⟨s, _, hs⟩ := hfound hnone
      ⟨s, hs⟩⟩
  case found =>
    rw [hrun]
    intro s hs
    have hs := (of_ofRows h htoday hs).2
    exact ⟨hs, hs.lastFive_lt, hs.lastQuarter_le, hs.firstYear_le,
      hs.lastYear_le_firstYear.trans hs.firstYear_le, hs.lastYear_le_firstYear⟩
  case missing =>
    rw [hrun]
    intro e he
    refine ⟨?_, hunstored e he⟩
    cases hanchor : missingAnchor? S desk.today with
    | none =>
      obtain ⟨s, -, hs⟩ := hfound hanchor
      rw [hs] at he
      cases he
    | some anchor =>
      rw [hmissing anchor hanchor] at he
      refine ⟨anchor, rfl, ?_, (Except.error.inj he).symm⟩
      rintro rfl
      exact missingAnchor?_ne_last_year S desk.today hanchor
  case recent_iff =>
    rw [hrun']
    exact ⟨fun ⟨r, hr⟩ => (of_recentRows h hr).1, fun hcard =>
      have ⟨r, _, hr⟩ := (recentSessions_outcome h).1 hcard
      ⟨r, hr⟩⟩
  case recent =>
    rw [hrun, hrun']
    intro r hr
    have hr := (of_recentRows h hr).2
    refine ⟨hr, fun s hs => ?_⟩
    have hs := (of_ofRows h htoday hs).2
    exact ⟨hr.latest.unique hs.latest, eq_of_card_filter hr.lastFive hs.lastFive⟩

end Runs

/-! ## A table with seven dates -/

/-- Sessions around the turn of a leap year, in no order and one of them twice. -/
def sampleDates : List Date :=
  [(2024, 1, 2), (2023, 12, 29), (2023, 2, 28), (2024, 1, 3), (2024, 1, 3), (2022, 6, 30),
    (2023, 3, 1)].map fun (year, month, day) => (Date.of? year month day).getD default

def sampleTrades : Tables where
  tickers := []
  trades := sampleDates.map fun d => ⟨"AAA", d.iso, none, none, none, none⟩
  ratios := []
  reports := []

theorem sampleTrades_dated : sampleTrades.Dated .trades sampleDates.toFinset :=
  Tables.dated_toFinset rfl (by decide)

/-- Twelve months before 29 February is 28 February. -/
theorem sessionDates_resolved_leap :
    sampleTrades.Dated .trades sampleDates.toFinset ∧
      Desk.Resolves ⟨⟨.aside, none, 2000⟩, (Date.of? 2024 2 29).getD default, none⟩ .trades
        sampleDates.toFinset (.fresh (.tables sampleTrades)) :=
  ⟨sampleTrades_dated, sessionDates_resolved _ sampleTrades_dated (by decide)
    (Backend.coldAt_fresh _ _) (Backend.coldAt_fresh _ _)⟩

end Bourse
