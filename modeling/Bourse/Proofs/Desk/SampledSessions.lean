import Bourse.Proofs.Desk.Requests
import Bourse.Proofs.Desk.Samples

/-!
# Sampled sessions

The anchors of a window go back from today without a repetition (`Window.pairwise_anchors`), so the
sessions nearest to them are looked for under different keys, and over a cold cache each is found
from the table alone. The oldest anchor is the one that may have none: sampling fails when it does,
and otherwise gives the sessions nearest to the anchors, newest first (`sampled_sampleSessions`).
-/

namespace Bourse

open Analysis

namespace Window

variable {window : Window} {today : Date}

/-- The anchor that lies furthest back. -/
def oldestAnchor (today : Date) (window : Window) : Date :=
  window.unit.endBefore today window.order

theorem oldestAnchor_mem (today : Date) (window : Window) :
    window.oldestAnchor today ∈ window.anchors today := by
  refine List.mem_map.2 ⟨window.order.toNat, List.mem_range.2 (Nat.lt_succ_self _), ?_⟩
  rw [UInt32.ofNat_toNat, oldestAnchor]

theorem today_mem_anchors (today : Date) (window : Window) : today ∈ window.anchors today :=
  List.mem_map.2 ⟨0, List.mem_range.2 (Nat.succ_pos _), Period.endBefore_zero today _⟩

variable (htoday : -262122 ≤ today.year) (hwindow : window.order.toNat ≤ maxOrder)

include htoday hwindow

theorem anchor_lt {i j : ℕ} (hij : i < j) (hj : j ≤ window.order.toNat) :
    window.unit.endBefore today (.ofNat j) < window.unit.endBefore today (.ofNat i) := by
  have hmax : maxOrder = 20 := rfl
  have hto : ∀ {k}, k ≤ j → (UInt32.ofNat k).toNat = k := fun hk =>
    UInt32.toNat_ofNat_of_lt' (lt_of_le_of_lt (by omega : _ ≤ 20) (by decide))
  obtain ⟨first, hstarts, hindex, -⟩ :=
    Period.exists_starts_of_year htoday (by omega : j ≤ 20) window.unit
  rw [← hto le_rfl] at hindex
  refine Period.endBefore_lt (UInt32.lt_iff_toNat_lt.2 ?_) ⟨first, hstarts, hindex⟩
  rwa [hto hij.le, hto le_rfl]

/-- Every anchor lies further back than the ones before it. -/
theorem pairwise_anchors : (window.anchors today).Pairwise (· > ·) := by
  rw [anchors, List.pairwise_map]
  refine List.pairwise_lt_range.imp_of_mem fun {i j} _ hj hij => ?_
  exact anchor_lt htoday hwindow hij (Nat.le_of_lt_succ (List.mem_range.1 hj))

theorem anchor_bounds {target : Date} (h : target ∈ window.anchors today) :
    window.oldestAnchor today ≤ target ∧ target ≤ today := by
  obtain ⟨k, hk, rfl⟩ := List.mem_map.1 h
  have hk := Nat.le_of_lt_succ (List.mem_range.1 hk)
  constructor
  · rcases hk.lt_or_eq with hlt | rfl
    · have hback := (anchor_lt htoday hwindow hlt le_rfl).le
      rwa [UInt32.ofNat_toNat] at hback
    · rw [UInt32.ofNat_toNat, oldestAnchor]
  · rcases Nat.eq_zero_or_pos k with rfl | hpos
    · exact le_rfl
    · exact (anchor_lt htoday hwindow hpos hk).le

end Window

theorem card_sessionsNear_le {S : Finset Date} {targets : List Date} :
    (sessionsNear S targets).card ≤ targets.length := by
  choose! near hnear using fun d (hd : d ∈ sessionsNear S targets) => mem_sessionsNear.1 hd
  have hinj : Set.InjOn near (sessionsNear S targets) := fun d hd e he h =>
    (hnear d hd).2.unique (h ▸ (hnear e he).2)
  calc (sessionsNear S targets).card
      ≤ targets.toFinset.card :=
        Finset.card_le_card_of_injOn near (fun d hd => List.mem_toFinset.2 (hnear d hd).1) hinj
    _ ≤ targets.length := List.toFinset_card_le targets

namespace Desk

variable {desk : Desk} {t : Tables} {table : SessionTable} {S : Finset Date} {b : Backend}

theorem run_nearestSession_cold {target : Date}
    (hb : b.ColdAt t (Topic.nearestSession table target).key.text) :
    ((desk.nearestSession table target).run.run Backend.services b).1
      = plain t (desk.nearestSession table target) := by
  obtain ⟨b', hrun, -⟩ := Gateway.run_asked desk.gateway.defaultTtl (.nearestSession table target)
    (nearestOfRows table target) hb
  rw [nearestSession, Gateway.getOrCompute, plain_getOrComputeFor, plain_bind]
  exact congrArg Prod.fst hrun

theorem uses_nearestSession (desk : Desk) (table : SessionTable) (target : Date) :
    (desk.nearestSession table target).run.Uses
      (· = (Topic.nearestSession table target).key.text) := by
  refine (desk.gateway.within_kept (fun act hact key hkey => ?_) <|
    within_bind (within_ask fun _ => False.elim) fun _ => within_lift _).uses
  cases act <;> first | exact hkey.symm.trans hact | cases hact

theorem nearestSession_key_inj {target target' : Date}
    (h : (Topic.nearestSession table target).key.text
      = (Topic.nearestSession table target').key.text) : target = target' :=
  (Topic.nearestSession.inj (Topic.key_text_inj trivial trivial h)).2

/-- The sessions of `S` nearest to the anchors of a window, each once, the latest first. -/
structure Samples (S : Finset Date) (today : Date) (window : Window) (sessions : List Date) :
    Prop where
  pairwise : sessions.Pairwise (· > ·)
  mem_iff : ∀ d, d ∈ sessions ↔
    ∃ target ∈ window.anchors today, IsGreatest {e | e ∈ S ∧ e ≤ target} d
  head : ∃ latest, sessions.head? = some latest ∧ IsGreatest {e | e ∈ S ∧ e ≤ today} latest
  mem : ∀ d ∈ sessions, d ∈ S
  length_le : sessions.length ≤ window.order.toNat + 1

/-- When there is a session up to today, the latest one of them comes first. -/
theorem samples_descending {today : Date} {window : Window} (htoday : ∃ d ∈ S, d ≤ today)
    (hanchors : ∀ target ∈ window.anchors today, target ≤ today) :
    Samples S today window (descending (sessionsNear S (window.anchors today))) := by
  have hmem : ∀ d, d ∈ descending (sessionsNear S (window.anchors today)) ↔
      ∃ target ∈ window.anchors today, IsGreatest {e | e ∈ S ∧ e ≤ target} d :=
    fun d => mem_descending.trans mem_sessionsNear
  have hpairwise := pairwise_descending (sessionsNear S (window.anchors today))
  have hlength : (descending (sessionsNear S (window.anchors today))).length
      ≤ window.order.toNat + 1 := by
    rw [length_descending]
    refine card_sessionsNear_le.trans_eq ?_
    rw [Window.anchors, List.length_map, List.length_range]
  generalize descending (sessionsNear S (window.anchors today)) = sessions at hmem hpairwise hlength
  refine ⟨hpairwise, hmem, ?head, fun d hd => ?mem, hlength⟩
  case head =>
    obtain ⟨latest, hfind⟩ := exists_find?_descending htoday
    have hlatest := find?_descending_iff.1 hfind
    have hin := (hmem latest).2 ⟨today, Window.today_mem_anchors _ _, hlatest⟩
    cases sessions with
    | nil => cases hin
    | cons d rest =>
      obtain ⟨target, htarget, ⟨hd, hle⟩, -⟩ := (hmem d).1 List.mem_cons_self
      have hup : d ≤ latest := hlatest.2 ⟨hd, hle.trans (hanchors target htarget)⟩
      have hdown : latest ≤ d := by
        rcases List.mem_cons.1 hin with rfl | hrest
        · exact le_rfl
        · exact (List.rel_of_pairwise_cons hpairwise hrest).le
      exact ⟨d, rfl, le_antisymm hup hdown ▸ hlatest⟩
  case mem =>
    obtain ⟨target, -, hgreatest⟩ := (hmem d).1 hd
    exact hgreatest.1.1

/-- What comes of sampling the dates of `S` at the anchors of a window: it fails when no date lies
on or before the oldest anchor, for an anchor that has none, and else gives the nearest ones. -/
structure Sampled (desk : Desk) (table : SessionTable) (window : Window) (S : Finset Date)
    (outcome : Except Fault (List Date)) : Prop where
  fails_iff : (∃ e, outcome = .error e) ↔ ¬∃ d ∈ S, d ≤ window.oldestAnchor desk.today
  fault : ∀ e, outcome = .error e → ∃ target ∈ window.anchors desk.today,
    (¬∃ d ∈ S, d ≤ target) ∧ e = .unresolved (.noSession target table.name)
  found : ∀ sessions, outcome = .ok sessions → Samples S desk.today window sessions

/-- Over a cold cache the sessions at the anchors of a window are sampled from a table's dates
alone. -/
theorem sampled_sampleSessions (h : t.Dated table S)
    (htoday : 21 ≤ desk.today.year ∧ desk.today.year ≤ 9999) {unit : Period} {order : UInt32}
    {window : Window} (hwindow : Window.make unit order = .ok window)
    (hb : ∀ target ∈ window.anchors desk.today,
      b.ColdAt t (Topic.nearestSession table target).key.text) :
    desk.Sampled table window S ((desk.sampleSessions table
      (window.anchors desk.today)).run.run Backend.services b).1 := by
  have horder := Window.order_le_of_make hwindow
  have hcalendar : -262122 ≤ desk.today.year := by omega
  have hbounds : ∀ target ∈ window.anchors desk.today,
      window.oldestAnchor desk.today ≤ target ∧ target ≤ desk.today := fun _ =>
    Window.anchor_bounds hcalendar horder
  have hnodup : ((window.anchors desk.today).map fun target =>
      (Topic.nearestSession table target).key.text).Nodup :=
    (Window.pairwise_anchors hcalendar horder).nodup.map fun _ _ => nearestSession_key_inj
  have hmapM := run_mapM_cold (fun _ _ => run_nearestSession_cold)
    (desk.uses_nearestSession table) hnodup hb
  have hplain : ((desk.sampleSessions table (window.anchors desk.today)).run.run
      Backend.services b).1 = plain t (desk.sampleSessions table (window.anchors desk.today)) := by
    rw [sampleSessions, plain_bind, ← hmapM, run_bind]
    generalize ((window.anchors desk.today).mapM (desk.nearestSession table)).run.run
      Backend.services b = r
    rcases r with ⟨_ | _, _⟩ <;> rfl
  obtain ⟨hfound, hmissing⟩ := plain_sampleSessions desk h fun target htarget =>
    anchor_year htoday horder htarget
  rw [hplain]
  -- a session up to the oldest anchor is one up to each of them
  by_cases hold : ∃ d ∈ S, d ≤ window.oldestAnchor desk.today
  · obtain ⟨d, hd, hle⟩ := hold
    rw [hfound fun target htarget => ⟨d, hd, hle.trans (hbounds target htarget).1⟩]
    refine ⟨⟨?fails, fun hnot => absurd ⟨d, hd, hle⟩ hnot⟩, fun e he => ?fault, ?found⟩
    case fails =>
      rintro ⟨e, he⟩
      cases he
    case fault => cases he
    case found =>
      intro sessions hsessions
      have htoday' := hle.trans (hbounds _ (Window.oldestAnchor_mem _ _)).2
      rw [← Except.ok.inj hsessions]
      exact samples_descending ⟨d, hd, htoday'⟩ fun target htarget => (hbounds target htarget).2
  · obtain ⟨target, htarget, hnone, hrun⟩ :=
      hmissing fun hall => hold (hall _ (Window.oldestAnchor_mem _ _))
    rw [hrun]
    refine ⟨iff_of_true ⟨_, rfl⟩ hold, fun e he => ?fault, fun sessions hsessions => ?found⟩
    case fault => exact ⟨target, htarget, hnone, (Except.error.inj he).symm⟩
    case found => cases hsessions

end Desk

/-- The quarters before a leap day, the last one with no session up to its end. -/
theorem sampled_sampleSessions_leap :
    sampleTrades.Dated .trades sampleDates.toFinset ∧ ∃ desk : Desk,
      desk.today.iso = "2024-02-29" ∧ desk.Sampled .trades ⟨.quarter, 8⟩ sampleDates.toFinset
        ((desk.sampleSessions .trades (Window.anchors desk.today ⟨.quarter, 8⟩)).run.run
          Backend.services (.fresh (.tables sampleTrades))).1 := by
  let desk : Desk := ⟨⟨.singleFlight, none, 2000⟩, (Date.of? 2024 2 29).getD default, none⟩
  have hyears : 21 ≤ desk.today.year ∧ desk.today.year ≤ 9999 := by decide
  have hmake : Window.make .quarter 8 = .ok ⟨.quarter, 8⟩ := rfl
  exact ⟨sampleTrades_dated, desk, by decide +kernel, Desk.sampled_sampleSessions sampleTrades_dated
    hyears hmake fun _ _ => Backend.coldAt_fresh _ _⟩

end Bourse
