import Bourse.Proofs.Desk.Anchors

/-!
# Sampled dates

The dates that a window samples, from the oldest to the latest (`samples?`): the sessions nearest to
its anchors, or the labels of completed report periods. Their texts ascend as they do
(`pairwise_samples`), and they are what a desk samples when nothing is cached (`plain_sampleDates`).
-/

namespace Bourse

/-- The outcomes of the steps on some items, or the fault of one of the steps. -/
theorem mapM_outcome {α β ε : Type} (f : α → Except ε β) : ∀ items : List α,
    (∃ results, items.mapM f = .ok results ∧ (∀ a ∈ items, ∃ b, f a = .ok b) ∧
      ∀ b, b ∈ results ↔ ∃ a ∈ items, f a = .ok b) ∨
    ∃ e, items.mapM f = .error e ∧ ∃ a ∈ items, f a = .error e
  | [] => .inl ⟨[], rfl, by simp, by simp⟩
  | a :: items => by
    rw [List.mapM_cons]
    cases ha : f a with
    | error e => exact .inr ⟨e, rfl, a, List.mem_cons_self, ha⟩
    | ok b =>
      rcases mapM_outcome f items with ⟨results, hrest, hall, hmem⟩ | ⟨e, hrest, c, hc, he⟩
      · refine .inl ⟨b :: results, by rw [hrest]; rfl, ?_, fun c => ?_⟩
        · exact List.forall_mem_cons.2 ⟨⟨b, ha⟩, hall⟩
        · simp [hmem, ha, eq_comm]
      · exact .inr ⟨e, by rw [hrest]; rfl, c, List.mem_cons_of_mem a hc, he⟩

section Sessions

variable {S : Finset Date} {targets : List Date}

/-- The dates that are, for one of the targets, the latest up to it. -/
def sessionsNear (S : Finset Date) (targets : List Date) : Finset Date :=
  S.filter fun d => ∃ target ∈ targets, d ≤ target ∧ ∀ e ∈ S, e ≤ target → e ≤ d

theorem mem_sessionsNear {d : Date} : d ∈ sessionsNear S targets ↔
    ∃ target ∈ targets, IsGreatest {e | e ∈ S ∧ e ≤ target} d := by
  rw [sessionsNear, Finset.mem_filter]
  constructor
  · rintro ⟨hd, target, htarget, hle, hgreatest⟩
    exact ⟨target, htarget, ⟨hd, hle⟩, fun e he => hgreatest e he.1 he.2⟩
  · rintro ⟨target, htarget, ⟨hd, hle⟩, hgreatest⟩
    exact ⟨hd, target, htarget, hle, fun e he hle' => hgreatest ⟨he, hle'⟩⟩

open Analysis

variable (desk : Desk) {t : Tables} {table : SessionTable} (h : t.Dated table S)

include h

theorem plain_nearestSession_iff {target d : Date}
    (htarget : 0 ≤ target.year ∧ target.year ≤ 9999) :
    plain t (desk.nearestSession table target) = .ok d ↔
      IsGreatest {e | e ∈ S ∧ e ≤ target} d := by
  by_cases hex : ∃ e ∈ S, e ≤ target
  · obtain ⟨e, he⟩ := exists_find?_descending hex
    have hgreatest := find?_descending_iff.1 he
    rw [plain_nearestSession desk h htarget hgreatest, Except.ok.injEq]
    exact ⟨fun heq => heq ▸ hgreatest, fun hd => hgreatest.unique hd⟩
  · rw [plain_nearestSession_none desk h htarget hex]
    exact ⟨nofun, fun hd => absurd ⟨d, hd.1⟩ hex⟩

/-- The sessions nearest to some days are found when each of the days has one. -/
theorem plain_sampleSessions (htargets : ∀ target ∈ targets, 0 ≤ target.year ∧ target.year ≤ 9999) :
    ((∀ target ∈ targets, ∃ d ∈ S, d ≤ target) →
      plain t (desk.sampleSessions table targets) = .ok (descending (sessionsNear S targets))) ∧
    (¬(∀ target ∈ targets, ∃ d ∈ S, d ≤ target) → ∃ target ∈ targets, (¬∃ d ∈ S, d ≤ target) ∧
      plain t (desk.sampleSessions table targets)
        = .error (.unresolved (.noSession target table.name))) := by
  rw [Desk.sampleSessions, plain_bind, plain_mapM]
  rcases mapM_outcome (fun target => plain t (desk.nearestSession table target)) targets with
    ⟨sessions, hrun, hall, hmem⟩ | ⟨e, hrun, target, htarget, he⟩
  · rw [hrun]
    refine ⟨fun _ => ?_, fun hnot => (hnot fun target htarget => ?_).elim⟩
    · refine congrArg Except.ok (eraseReps_mergeSort_descending (pairwise_descending _) fun d => ?_)
      rw [hmem, mem_descending, mem_sessionsNear]
      exact exists_congr fun target => and_congr_right fun htarget =>
        plain_nearestSession_iff desk h (htargets target htarget)
    · obtain ⟨d, hd⟩ := hall target htarget
      exact ⟨d, ((plain_nearestSession_iff desk h (htargets target htarget)).1 hd).1⟩
  · rw [hrun]
    have hnone : ¬∃ d ∈ S, d ≤ target := by
      intro hex
      obtain ⟨d, hd⟩ := exists_find?_descending hex
      rw [(plain_nearestSession_iff desk h (htargets target htarget)).2
        (find?_descending_iff.1 hd)] at he
      cases he
    rw [plain_nearestSession_none desk h (htargets target htarget) hnone] at he
    cases he
    exact ⟨fun hall => absurd (hall target htarget) hnone, fun _ => ⟨target, htarget, hnone, rfl⟩⟩

end Sessions

theorem padded_eq_toDigits {width n : ℕ} (h : width ≤ (Nat.toDigits 10 n).length) :
    Date.padded width n = Nat.toDigits 10 n := by
  rw [Date.padded, Nat.sub_eq_zero_of_le h, List.replicate_zero, List.nil_append]

theorem toList_ofInt {n : ℤ} (h : 1000 ≤ n ∧ n ≤ 9999) :
    (Text.ofInt n).toList = Date.padded 4 n.toNat := by
  have hlen : 4 ≤ (Nat.toDigits 10 n.toNat).length := by
    by_contra hlt
    have hsmall := (Nat.length_toDigits_le_iff (by decide) (by decide)).1 (by omega :
      (Nat.toDigits 10 n.toNat).length ≤ 3)
    omega
  rw [Text.ofInt, String.toList_ofList, Text.intChars, if_neg (by omega), padded_eq_toDigits hlen,
    show n.natAbs = n.toNat by omega]

theorem toList_quarterLabel {year : ℤ} (h : 1000 ≤ year ∧ year ≤ 9999) (quarter : ℕ) :
    (quarterLabel year quarter).toList
      = Date.padded 4 year.toNat ++ 'Q' :: Date.padded 1 quarter := by
  rw [quarterLabel, String.toList_append, String.toList_append, toList_ofInt h, Text.ofNat,
    String.toList_ofList, String.toList_ofList, padded_eq_toDigits Nat.length_toDigits_pos,
    List.append_assoc]
  rfl

/-- The labels of quarters ascend as the quarters do, as long as years have four digits. -/
theorem quarterLabel_lt {year year' : ℤ} {quarter quarter' : ℕ}
    (hyear : 1000 ≤ year ∧ year ≤ 9999) (hyear' : 1000 ≤ year' ∧ year' ≤ 9999)
    (hquarter : 1 ≤ quarter ∧ quarter ≤ 4) (hquarter' : 1 ≤ quarter' ∧ quarter' ≤ 4)
    (h : year * 4 + quarter < year' * 4 + quarter') :
    quarterLabel year quarter < quarterLabel year' quarter' := by
  rw [String.lt_iff_toList_lt, toList_quarterLabel hyear, toList_quarterLabel hyear',
    Date.padded_append_lt_iff (by decide) (by omega) (by omega),
    Date.padded_lt_padded_iff (by decide) (by omega) (by omega)]
  omega

/-- The labels of completed periods descend into the past, as long as years have four digits. -/
theorem reportLabel_lt {today : Date} {unit : Period} {i j : ℕ} (hij : i < j)
    (hj : 1000 + j ≤ today.year) (htoday : today.year ≤ 9999) :
    reportLabel today unit j < reportLabel today unit i := by
  have hm := Date.month_bounds today
  unfold reportLabel
  split_ifs with hunit
  · rw [String.lt_iff_toList_lt, toList_ofInt (by omega), toList_ofInt (by omega),
      Date.padded_lt_padded_iff (by decide) (by omega) (by omega)]
    omega
  · have hindex : Period.quarterIndex today = today.year * 4 + ((today.month - 1) / 3 : ℕ) := rfl
    exact quarterLabel_lt (by omega) (by omega) (by omega) (by omega) (by omega)

/-- The dates that a window samples, the oldest first; none when one of its anchors has no session
up to it, or when the measure is not reported by its period. -/
def samples? (S : SessionTable → Finset Date) (today : Date) (measure : Measure) (window : Window) :
    Option (List String) :=
  match measure.sessions with
  | some table =>
    if ∀ target ∈ window.anchors today, ∃ d ∈ S table, d ≤ target then
      some ((descending (sessionsNear (S table) (window.anchors today))).reverse.map Date.iso)
    else none
  | none =>
    if window.unit = .quarter ∨ window.unit = .year then
      some (((List.range (window.order.toNat + 1)).map fun k =>
        reportLabel today window.unit (k + 1)).reverse)
    else none

theorem Window.order_le_of_make {unit : Period} {order : UInt32} {window : Window}
    (h : Window.make unit order = .ok window) : window.order.toNat ≤ maxOrder := by
  unfold make at h
  split_ifs at h with hrange
  cases h
  simp only [Bool.or_eq_true, decide_eq_true_eq, not_or, not_lt] at hrange
  exact hrange.2

theorem anchor_year {today target : Date} {window : Window}
    (htoday : 21 ≤ today.year ∧ today.year ≤ 9999) (hwindow : window.order.toNat ≤ Window.maxOrder)
    (h : target ∈ window.anchors today) : 0 ≤ target.year ∧ target.year ≤ 9999 := by
  obtain ⟨k, hk, rfl⟩ := List.mem_map.1 h
  have hlt := List.mem_range.1 hk
  have hmax : Window.maxOrder = 20 := rfl
  have hsteps : (UInt32.ofNat k).toNat ≤ 20 := by
    rw [UInt32.toNat_ofNat']
    omega
  have hcalendar : -262122 ≤ today.year := by omega
  have hyear := Period.endBefore_year hcalendar hsteps window.unit
  omega

section Samples

variable {S : SessionTable → Finset Date} {today : Date} {measure : Measure} {window : Window}
  (htoday : 1021 ≤ today.year ∧ today.year ≤ 9999) (hwindow : window.order.toNat ≤ Window.maxOrder)

include htoday hwindow

/-- The texts of the sampled dates ascend, and there is one at least. -/
theorem pairwise_samples (hS : ∀ table, ∀ d ∈ S table, 0 ≤ d.year ∧ d.year ≤ 9999)
    {dates : List String} (h : samples? S today measure window = some dates) :
    dates.Pairwise (· < ·) ∧ dates ≠ [] := by
  unfold samples? at h
  cases hsessions : measure.sessions with
  | some table =>
    simp only [hsessions] at h
    split_ifs at h with hall
    obtain rfl := Option.some.inj h
    constructor
    · rw [List.pairwise_map, List.pairwise_reverse]
      refine (pairwise_descending _).imp_of_mem fun {a b} ha hb hab => ?_
      have hyear : ∀ d ∈ descending (sessionsNear (S table) (window.anchors today)),
          0 ≤ d.year ∧ d.year ≤ 9999 := fun d hd =>
        hS table d (Finset.mem_filter.1 (mem_descending.1 hd)).1
      exact (Date.iso_lt_iso_iff (hyear b hb) (hyear a ha)).2 hab
    · have hanchor : today ∈ window.anchors today :=
        List.mem_map.2 ⟨0, List.mem_range.2 (Nat.succ_pos _), Period.endBefore_zero today _⟩
      obtain ⟨d, hd⟩ := exists_find?_descending (hall today hanchor)
      have hmem := mem_sessionsNear.2 ⟨today, hanchor, find?_descending_iff.1 hd⟩
      simpa using List.ne_nil_of_mem (mem_descending.2 hmem)
  | none =>
    simp only [hsessions] at h
    split_ifs at h with hunit
    obtain rfl := Option.some.inj h
    constructor
    · rw [List.pairwise_reverse, List.pairwise_map]
      refine List.pairwise_lt_range.imp_of_mem fun {i j} _ hj hij => ?_
      have hlt := List.mem_range.1 hj
      have hmax : Window.maxOrder = 20 := rfl
      exact reportLabel_lt (by omega) (by omega) htoday.2
    · simp

end Samples

/-- As many labels as asked for, when a signed word holds their number. -/
theorem reportPeriods_of_lt {today : Date} {unit : Period} {count : UInt32}
    (hunit : unit = .quarter ∨ unit = .year) (hcount : count.toNat < 2147483648) :
    reportPeriods today unit count
      = .ok (((List.range count.toNat).map fun k => reportLabel today unit (k + 1)).reverse) := by
  have hword : (Period.word count.toNat).toNat = count.toNat := by
    rw [Period.word_eq (by omega), Int.toNat_natCast]
  rw [reportPeriods, if_pos (by simpa using hunit), hword]

section Sampling

open Analysis

variable {desk : Desk} {t : Tables} {S : SessionTable → Finset Date} {measure : Measure}
  {window : Window} (hwindow : window.order.toNat ≤ Window.maxOrder)

include hwindow

theorem reportPeriods_eq (hunit : window.unit = .quarter ∨ window.unit = .year) :
    reportPeriods desk.today window.unit (window.order + 1)
      = .ok (((List.range (window.order.toNat + 1)).map fun k =>
          reportLabel desk.today window.unit (k + 1)).reverse) := by
  have hmax : Window.maxOrder = 20 := rfl
  have hcount : (window.order + 1).toNat = window.order.toNat + 1 := by
    rw [UInt32.toNat_add, UInt32.toNat_one]
    omega
  rw [reportPeriods_of_lt hunit (by omega), hcount]

variable (h : ∀ table, t.Dated table (S table))
  (htoday : 1021 ≤ desk.today.year ∧ desk.today.year ≤ 9999)

include h htoday

variable (measure) in
/-- A desk samples the dates of the window when there are any, in some order. -/
theorem plain_sampleDates :
    (∀ dates, samples? S desk.today measure window = some dates →
      ∃ sampled, plain t (desk.sampleDates measure window) = .ok sampled ∧
        ∀ d, d ∈ sampled ↔ d ∈ dates) ∧
    (samples? S desk.today measure window = none →
      ∃ e, plain t (desk.sampleDates measure window) = .error e) := by
  unfold samples? Desk.sampleDates
  cases hsessions : measure.sessions with
  | some table =>
    have hyears : 21 ≤ desk.today.year ∧ desk.today.year ≤ 9999 := by omega
    obtain ⟨hfound, hmissing⟩ := plain_sampleSessions desk (h table)
      fun _ hanchor => anchor_year hyears hwindow hanchor
    simp only [plain_bind]
    split_ifs with hall
    · refine ⟨fun dates hdates => ?_, nofun⟩
      obtain rfl := Option.some.inj hdates
      rw [hfound hall]
      exact ⟨_, rfl, fun d => by simp⟩
    · obtain ⟨target, -, -, he⟩ := hmissing hall
      rw [he]
      exact ⟨nofun, fun _ => ⟨_, rfl⟩⟩
  | none =>
    split_ifs with hunit
    · refine ⟨fun dates hdates => ?_, nofun⟩
      obtain rfl := Option.some.inj hdates
      exact ⟨_, reportPeriods_eq hwindow hunit, fun d => Iff.rfl⟩
    · refine ⟨nofun, fun _ => ⟨.invalid (.unpublished window.unit), ?_⟩⟩
      simp only [reportPeriods]
      rw [if_neg (by simpa using hunit)]
      rfl

end Sampling

theorem leastText_eq (l : List String) : leastText l = l.min? := by
  have hmin : (fun a b : String => if b < a then b else a) = min := by
    funext a b
    rw [min_def]
    split_ifs with hlt hle hle
    · exact absurd hlt (not_lt.2 hle)
    · rfl
    · rfl
    · exact absurd (not_le.1 hle) hlt
  cases l with
  | nil => rfl
  | cons s rest => rw [leastText, hmin, List.min?_cons']

/-- The least of some texts is the first of the same texts in ascending order. -/
theorem leastText_of_pairwise {l : List String} {start : String} {rest : List String}
    (hpairwise : (start :: rest).Pairwise (· < ·)) (hmem : ∀ s, s ∈ l ↔ s ∈ start :: rest) :
    leastText l = some start := by
  rw [leastText_eq, List.min?_eq_some_iff]
  exact ⟨(hmem start).2 List.mem_cons_self, fun s hs =>
    (hpairwise.imp le_of_lt).rel_head ((hmem s).1 hs)⟩

end Bourse
