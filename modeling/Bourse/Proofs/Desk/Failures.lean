import Bourse.Proofs.Desk.AnyOrder
import Bourse.Proofs.Desk.Rankings
import Bourse.Proofs.Desk.Requests
import Bourse.Proofs.Gateway.Confined

/-!
# Failed calls

A call that fails keeps nothing but sessions that it has found on its way (`Desk.Traceless`). They
are the right ones, so the same call without a fault is then answered as over an empty cache
(`failsCleanly_calls`).
-/

namespace Bourse

variable {α β : Type}

theorem Analysis.run_map {σ : Type} (services : Services σ) (a : Analysis α) (f : α → β) (s : σ) :
    (f <$> a).run.run services s
      = ((a.run.run services s).1.map f, (a.run.run services s).2) := by
  rw [← bind_pure_comp, run_bind]
  rcases a.run.run services s with ⟨_ | _, _⟩ <;> rfl

namespace Desk

open Analysis

/-- Between two moments no entry of the given key came or changed, and a live one stayed. The other
entries that came are of calls about sessions, and hold their answers over the tables. -/
structure Traceless (desk : Desk) (t : Tables) (own : Option String) (b later : Backend) :
    Prop where
  none_added : ∀ key ∈ own, ∀ e ∈ later.cache.entries, e.1 = key → e ∈ b.cache.entries
  alive : ∀ key ∈ own, ∀ last text, later.now ≤ last → b.cache.Warm last key text →
    later.cache.Warm last key text
  added : ∀ e ∈ later.cache.entries, e ∉ b.cache.entries →
    ∃ d : Call, d.topic.OfSessions ∧ e.1 = d.topic.key.text ∧
      ∃ j, (desk.answer d).plain t = .ok j ∧ e.2.text = j.text

/-- Whatever fails on the way, and whatever true values were kept before: a failure of the analysis
leaves nothing but sessions, and without a fault the analysis then gives what it gives over an
empty cache. -/
def FailsCleanly (desk : Desk) (t : Tables) (own : Option String) (a : Analysis α) : Prop :=
  ∀ (c : Conditions) (b : Backend), b.Sound t (desk.truth t) → ∀ (e : Fault) (b' : Backend),
    a.run.run (Backend.under c) b = (.error e, b') →
      desk.Traceless t own b b' ∧ ∀ delay,
        (a.run.run (Backend.timed delay) b').1
          = (a.run.run Backend.services (Backend.fresh (.tables t))).1

variable {desk : Desk} {t : Tables} {own : Option String} {b b' : Backend}

/-- The key of sessions truly holds the answer of a call about them. -/
theorem exists_sessionCall {key : String} (hkey : SessionKey key) {j : Json}
    (hj : desk.truth t key j) :
    ∃ d : Call, d.topic.OfSessions ∧ key = d.topic.key.text ∧ (desk.answer d).plain t = .ok j := by
  obtain ⟨d, hd, rfl, hanswer⟩ := hj
  refine ⟨d, ?_, rfl, hanswer⟩
  by_contra hother
  exact not_sessionKey hother hkey

theorem Traceless.of_confined
    (h : Backend.Confined (fun k => SessionKey k ∧ ∀ key ∈ own, k ≠ key) b b')
    (hb' : b'.Sound t (desk.truth t)) : desk.Traceless t own b b' where
  none_added key hkey e he heq := (h.added e he).resolve_right fun hnew => hnew.2 key hkey heq
  alive key hkey _ _ hlast := h.alive (fun hnew => hnew.2 key hkey rfl) hlast
  added e he hnot := by
    obtain ⟨hsession, -⟩ := (h.added e he).resolve_left hnot
    obtain ⟨j, hj, htext⟩ := hb'.kept e he
    obtain ⟨d, hd, hkey, hanswer⟩ := exists_sessionCall hsession hj
    exact ⟨d, hd, hkey, j, hanswer, htext⟩

/-- From a sound backend an analysis without a fault gives what it gives over an empty cache. -/
theorem eq_alone_of_transparent {a : Analysis α} (ha : Transparent t (desk.truth t) Eq a)
    (hb : b.Sound t (desk.truth t)) (delay : Backend → ℕ) :
    (a.run.run (Backend.timed delay) b).1
      = (a.run.run Backend.services (Backend.fresh (.tables t))).1 := by
  have halone := ha (fun _ => 0) (Backend.fresh (.tables t))
    ⟨rfl, rfl, rfl, CacheStore.everywhere_empty _⟩
  rw [Backend.timed_zero] at halone
  exact (agrees_eq (ha delay b hb).1).trans (agrees_eq halone.1).symm

/-- What a computation of a call leaves when it fails, or when its value could not be kept. -/
theorem Computes.traceless [Payload α] {d : Call} {ttl : Option ℕ} {computation : Analysis α}
    (h : desk.Computes d ttl computation) (hd : d.topic.WellFormed) {c : Conditions}
    (hb : b.Sound t (desk.truth t)) {e : Fault}
    (he : (desk.answer d).run.run (Backend.under c) b = (.error e, b')) :
    b'.Sound t (desk.truth t) ∧ desk.Traceless t (some d.topic.key.text) b b' := by
  have htruth : ∀ j, desk.truth t d.topic.key.text j → ∃ w, plain t computation = .ok w := by
    intro j hj
    rw [desk.truth_key t hd, h.answer, plain_map, plain_getOrComputeFor] at hj
    cases hplain : plain t computation with
    | error e =>
      rw [hplain] at hj
      cases hj
    | ok w => exact ⟨w, rfl⟩
  rw [h.answer, run_map] at he
  obtain ⟨hfault, rfl⟩ := Prod.mk.inj he
  obtain ⟨e', he'⟩ : ∃ e', ((desk.gateway.getOrComputeFor d.topic.key.text ttl
      computation).run.run (Backend.under c) b).1 = .error e' := by
    revert hfault
    cases ((desk.gateway.getOrComputeFor d.topic.key.text ttl
      computation).run.run (Backend.under c) b).1 with
    | error e' => exact fun _ => ⟨e', rfl⟩
    | ok v => exact nofun
  -- A key truly holds a value only when the computation gives one, so nothing is read back for a
  -- call that fails.
  have hread : ∀ v j, desk.truth t d.topic.key.text j → Payload.read j.text = some v →
      Agrees (fun _ _ => True) (.ok v) (plain t computation) := by
    intro v j hj _
    obtain ⟨w, hw⟩ := htruth j hj
    rw [hw]
    exact .ok trivial
  have hsound := (allows_getOrComputeFor (h.steady c t) (.inr hread) hb).2 fun v hv => by
    rw [he'] at hv
    cases hv
  refine ⟨hsound, .of_confined (.mono (confined_getOrComputeFor (h.uses.of_avoids h.avoids) he')
    fun hkey => ⟨hkey.1, fun key hown => ?_⟩) hsound⟩
  cases hown
  exact hkey.2

/-- An analysis without a key of its own keeps nothing but sessions, whatever comes of it. -/
theorem failsCleanly_of_uses {a : Analysis α} {same : α → α → Prop}
    (huses : a.run.Uses SessionKey) (hsteady : ∀ c, Steady c t (desk.truth t) same a)
    (ha : Transparent t (desk.truth t) Eq a) : desk.FailsCleanly t none a := by
  intro c b hb e b' he
  have hb' : b'.Sound t (desk.truth t) := by
    have hsound := (hsteady c b hb).2
    rwa [he] at hsound
  have hconfined : Backend.Confined SessionKey b b' := by
    have h := huses.confined c b
    change Backend.Confined SessionKey b (a.run.run (Backend.under c) b).2 at h
    rwa [he] at h
  exact ⟨.of_confined (hconfined.mono fun hkey => ⟨hkey, nofun⟩) hb',
    eq_alone_of_transparent ha hb'⟩

theorem failsCleanly_answer {d : Call} (hd : d.topic.WellFormed) :
    desk.FailsCleanly t (some d.topic.key.text) (desk.answer d) := by
  intro c b hb e b' he
  have hleft : b'.Sound t (desk.truth t) ∧ desk.Traceless t (some d.topic.key.text) b b' := by
    rcases desk.exists_computation d with ⟨e, hthrow⟩ | ⟨α, _, ttl, computation, h⟩
    · rw [hthrow] at he
      cases he
      exact ⟨hb, .of_confined (.refl _ b) hb⟩
    · exact h.traceless hd hb he
  exact ⟨hleft.2, eq_alone_of_transparent (desk.transparent_answer t hd) hleft.1⟩

/-- A call that fails, at whatever point, leaves nothing of its own and no wrong sessions, and so do
change records and sampled sessions, which are kept under no key. Without a fault the call is then
answered as over an empty cache. -/
theorem failsCleanly_calls (desk : Desk) (t : Tables) :
    (∀ d : Call, d.topic.WellFormed →
      desk.FailsCleanly t (some d.topic.key.text) (desk.answer d)) ∧
    (∀ metric f window, desk.FailsCleanly t none (desk.computeChange metric f window)) ∧
    ∀ table targets, desk.FailsCleanly t none (desk.sampleSessions table targets) :=
  ⟨fun _ hd => failsCleanly_answer hd,
    fun metric f window => failsCleanly_of_uses (desk.uses_computeChange metric f window)
      (fun _ => steady_records _ metric window) (desk.transparent_computeChange t metric f window),
    fun table targets => failsCleanly_of_uses (desk.uses_sampleSessions table targets)
      (fun _ => desk.steady_sampleSessions t table targets)
      (transparent_iff.2 fun _ => desk.steady_sampleSessions t table targets)⟩

/-- The connection to the database is lost before any numbers are compared. -/
def interrupted : Conditions where
  delay _ := 300
  lookup _ _ := .served
  write _ _ := .served
  fault?
    | _, .comparison .. => some (.query "connection reset")
    | _, _ => none
  order _ _ rows := rows
  order_perm _ _ rows := .refl rows

section Interrupted

variable (hcache : b.cache = .empty 3) (hlookups : b.lookups = .healthy)
  (hwrites : b.writes = .healthy) (hsource : b.source = .tables anchorTables)

include hcache hlookups hwrites hsource

theorem run_sessionDates_interrupted : ∃ b',
    (anchorDesk.sessionDates .trades).run.run (Backend.under interrupted) b
        = (.ok anchorSessions, b') ∧
      b'.cache.entries.map (·.1) = [(Topic.sessionDates .trades).key.text] := by
  obtain ⟨now, _, _, _, inFlight, _, log⟩ := b
  subst hcache hlookups hwrites hsource
  let services := Backend.under interrupted
  let anchors := Statement.sessionAnchors .trades (sessionTargets anchorDesk.today)
  have hcomputed : ∀ b : Backend, b.source = .tables anchorTables →
      (do
        let rows ← ask anchors
        SessionDates.ofRows .trades rows : Analysis SessionDates).run.run services b
          = (.ok anchorSessions, (services.ask anchors b).2) := by
    rintro ⟨now, _, _, _, inFlight, _, log⟩ rfl
    exact congrArg (·, _) (ofRows_eq_ok anchorTables_dated (by decide) anchorSessions_of)
  change ∃ b', (Gateway.fetchInTurn ..).run.run _ _ = _ ∧ _
  rw [run_fetchInTurn_missed anchorDesk.sessionTtl _ rfl rfl, hcomputed _ rfl]
  exact ⟨_, rfl, rfl⟩

theorem run_pivoted_interrupted : ∃ b',
    (anchorDesk.pivoted .priceChange banksOnHose none).run.run (Backend.under interrupted) b
        = (.error (.query "connection reset"), b') ∧
      b'.cache.entries.map (·.1) = [(Topic.sessionDates .trades).key.text] := by
  obtain ⟨b', hb', hkeys⟩ := run_sessionDates_interrupted hcache hlookups hwrites hsource
  obtain ⟨current, prior, hplan⟩ : ∃ current prior, (anchorDesk.plan .priceChange none).run.run
      (Backend.under interrupted) b = (.ok (.compare current prior true), b') := by
    change ∃ current prior, (anchorDesk.sessionDates .trades >>= _).run.run _ _ = _
    rw [run_bind, hb']
    exact ⟨_, _, rfl⟩
  rw [pivoted, run_bind, hplan]
  exact ⟨_, rfl, hkeys⟩

end Interrupted

/-- A ranking loses the database when its sessions are already stored. They stay, and the ranking is
given in full later on. -/
theorem failsCleanly_calls_interrupted :
    (Call.priceChange banksOnHose).topic.WellFormed ∧
      ∃ b', (anchorDesk.answer (.priceChange banksOnHose)).run.run (Backend.under interrupted)
          (emptyBackend anchorTables 3 0) = (.error (.query "connection reset"), b') ∧
        b'.cache.entries.map (·.1) = [(Topic.sessionDates .trades).key.text] ∧
        anchorDesk.Traceless anchorTables (some (Call.priceChange banksOnHose).topic.key.text)
          (emptyBackend anchorTables 3 0) b' ∧
        ((anchorDesk.answer (.priceChange banksOnHose)).run.run (Backend.timed fun _ => 0) b').1
          = ((anchorDesk.answer (.priceChange banksOnHose)).run.run Backend.services
              (Backend.fresh (.tables anchorTables))).1 := by
  have hformed : (Call.priceChange banksOnHose).topic.WellFormed :=
    (sampleCalls_made _ (by simp [sampleCalls, banksOnHose])).wellFormed
  let services := Backend.under interrupted
  let key := (Topic.ranking .priceChange banksOnHose).key.text
  obtain ⟨b', hb', hkeys⟩ := run_pivoted_interrupted (b := (services.lookup key (services.enter key
    (services.lookup key (emptyBackend anchorTables 3 0)).2)).2) rfl rfl rfl rfl
  have hrun : (anchorDesk.answer (.priceChange banksOnHose)).run.run services
      (emptyBackend anchorTables 3 0)
      = (.error (.query "connection reset"), services.leave key b') := by
    change (_ <$> Gateway.fetchInTurn ..).run.run _ _ = _
    rw [run_map, run_fetchInTurn_missed _ _ rfl rfl, run_bind, hb']
    rfl
  obtain ⟨hleft, hrepeat⟩ := (failsCleanly_calls anchorDesk anchorTables).1 _ hformed interrupted
    (emptyBackend anchorTables 3 0) (sound_emptyBackend ..) _ _ hrun
  exact ⟨hformed, _, hrun, hkeys, hleft, hrepeat _⟩

end Desk

end Bourse
