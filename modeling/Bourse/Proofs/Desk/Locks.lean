import Bourse.Proofs.Desk.Requests
import Bourse.Proofs.LockOrder

/-!
# Locks of a desk's calls

A call asks for a lock beside another one only to find sessions while it computes an analytic
(`LockOrder`). Nothing is asked for beside a lock of sessions, so that calls never all wait for each
other, however many there are and whatever fails (`Desk.deadlock_free`).
-/

namespace Bourse

/-- About figures of tickers: a metric, the breadth of the market, or its top movers. -/
def AnalyticKey (key : String) : Prop :=
  ∃ topic : Topic, ¬topic.OfSessions ∧ topic.key.text = key

theorem AnalyticKey.not_sessionKey {key : String} (h : AnalyticKey key) : ¬SessionKey key := by
  obtain ⟨topic, htopic, rfl⟩ := h
  exact Bourse.not_sessionKey htopic

/-- The lock of `held` may be held when that of `asked` is asked for. -/
structure LockOrder (held asked : String) : Prop where
  held_analytic : AnalyticKey held
  asked_sessions : SessionKey asked
  ne : held ≠ asked
  held_not_sessions : ¬SessionKey held

theorem lockOrder_of {held asked : String} (hheld : AnalyticKey held) (hasked : SessionKey asked) :
    LockOrder held asked :=
  ⟨hheld, hasked, fun heq => hheld.not_sessionKey (heq ▸ hasked), hheld.not_sessionKey⟩

/-- Beside a lock of sessions nothing is asked for, and beside any other only such a lock. -/
theorem wellFounded_lockOrder : WellFounded fun asked held => LockOrder held asked := by
  have hsessions : ∀ key, SessionKey key → Acc (fun asked held => LockOrder held asked) key :=
    fun key hkey => ⟨key, fun _ h => absurd hkey h.held_not_sessions⟩
  exact ⟨fun key => ⟨key, fun asked h => hsessions asked h.asked_sessions⟩⟩

namespace Desk

open Analysis

variable {held : List String}

theorem asks_nests (filter? : Option Filter) :
    Asks (fun _ a => a.run.Nests LockOrder held held) filter? :=
  fun statement _ => nests_ask statement

variable (desk : Desk)

/-- Sessions are kept under locks that may be taken beside those of analytics. -/
theorem finds_nests (hheld : ∀ key ∈ held, AnalyticKey key) :
    desk.Finds fun _ a => a.run.Nests LockOrder held held := by
  refine finds_of_keeps (composes_nests LockOrder held) ?_
  intro α _ topic htopic ttl statement _ decode
  have hcomputation : ∀ held, (ask statement >>= fun rows =>
      (liftM (decode rows) : Analysis α)).run.Nests LockOrder held held := fun held =>
    (composes_nests LockOrder held).bind (nests_ask statement) fun _ => rfl
  have hkey : ∀ key ∈ held, LockOrder key topic.key.text := fun key hkey =>
    lockOrder_of (hheld key hkey) ⟨topic, htopic, rfl⟩
  exact desk.gateway.nests_getOrComputeFor hkey (hcomputation held) (hcomputation _)

/-- What a desk is asked to run: a call, or the records of a metric or sampled sessions, which are
kept under no key of their own. -/
inductive Serves (desk : Desk) : Program (Except Fault Json) → Prop
  | call (c : Call) : Serves desk (desk.answer c).run
  | computeChange (metric : Metric) (filter : Filter) (window : Option Window) :
    Serves desk (Payload.encode <$> desk.computeChange metric filter window).run
  | sampleSessions (table : SessionTable) (targets : List Date) :
    Serves desk (Payload.encode <$> desk.sampleSessions table targets).run

theorem nests_answer (c : Call) : (desk.answer c).run.Nests LockOrder [] [] := by
  rcases desk.exists_computation c with ⟨e, hthrow⟩ | ⟨α, _, ttl, computation, h⟩
  · rw [hthrow]
    exact (composes_nests LockOrder []).throw e
  have hcomputation : ∀ held, (∀ key ∈ held, key = c.topic.key.text) →
      computation.run.Nests LockOrder held held := by
    intro held hheld
    refine h.parts _ (composes_nests LockOrder held) asks_nests fun hother => ?_
    exact desk.finds_nests fun key hkey => ⟨c.topic, hother, (hheld key hkey).symm⟩
  rw [h.answer]
  exact (composes_nests LockOrder []).map (desk.gateway.nests_getOrComputeFor nofun
    (hcomputation [] nofun) (hcomputation _ fun _ => List.mem_singleton.1)) _

theorem Serves.nests {p : Program (Except Fault Json)} (h : desk.Serves p) :
    p.Nests LockOrder [] [] := by
  have hfinds : desk.Finds fun _ a => a.run.Nests LockOrder [] [] := desk.finds_nests nofun
  cases h with
  | call c => exact desk.nests_answer c
  | computeChange metric filter window =>
    exact hfinds.map (hfinds.computeChange (asks_nests _) metric window) _
  | sampleSessions table targets => exact hfinds.map (hfinds.sampleSessions table targets) _

section Crews

variable {c d : Crew (Except Fault Json)} (hserved : ∀ p ∈ c.programs, ∃ desk : Desk, desk.Serves p)
  (hfree : c.backend.inFlight.Free)

include hserved

theorem nests_of_serves : ∀ p ∈ c.programs, p.Nests LockOrder [] [] := by
  intro p hp
  obtain ⟨desk, hdesk⟩ := hserved p hp
  exact hdesk.nests

include hfree

theorem orderly_of_reaches (hd : c.Reaches d) : d.Orderly LockOrder :=
  (Crew.Orderly.start (nests_of_serves hserved) hfree).of_reaches
    wellFounded_lockOrder.irrefl.irrefl hd

end Crews

/-- Whatever they are replied, calls take locks in order. However many run side by side, and
whatever goes on beside them, those that are not done do not all wait for locks of others, and from
wherever they have got to they can all come to an end. -/
theorem deadlock_free {c : Crew (Except Fault Json)}
    (hserved : ∀ p ∈ c.programs, ∃ desk : Desk, desk.Serves p) (hfree : c.backend.inFlight.Free) :
    (∀ p ∈ c.programs, p.Nests LockOrder [] []) ∧
      ∀ d, c.Reaches d →
        ((∃ i, d.Unfinished i) → ∃ i, d.Unfinished i ∧ ¬∃ key, d.WaitsFor i key) ∧
          ∃ moves, ∀ i, ¬(d.run moves).Unfinished i := by
  refine ⟨nests_of_serves hserved, fun d hd => ?_⟩
  have horderly := orderly_of_reaches hserved hfree hd
  exact ⟨horderly.exists_not_waits wellFounded_lockOrder,
    horderly.exists_run_finished wellFounded_lockOrder⟩

/-- Two of the calls are for the same key. -/
def sampleCrew : Crew (Except Fault Json) :=
  ⟨sampleCalls.map fun c => (sampleDesk.answer c).run, .fresh (.tables sampleTables)⟩

/-- The second call for a key waits for the first one, and yet they can all come to an end. -/
theorem deadlock_free_sample :
    let d := sampleCrew.run [.step 0, .step 3, .step 0, .step 3]
    (∀ p ∈ sampleCrew.programs, ∃ desk : Desk, desk.Serves p) ∧
      sampleCrew.backend.inFlight.Free ∧ (∃ key, d.WaitsFor 3 key) ∧
      (∃ i, d.Unfinished i ∧ ¬∃ key, d.WaitsFor i key) ∧
      ∃ moves, ∀ i, ¬(d.run moves).Unfinished i := by
  intro d
  have hserved : ∀ p ∈ sampleCrew.programs, ∃ desk : Desk, desk.Serves p := by
    intro p hp
    obtain ⟨c, -, rfl⟩ := List.mem_map.1 hp
    exact ⟨sampleDesk, .call c⟩
  have hwaits : d.WaitsFor 3 (Topic.topMovers ⟨[.hose], ["Banks"]⟩ 50).key.text :=
    ⟨_, 0, rfl, by decide, by decide +kernel⟩
  have hunfinished : ∃ i, d.Unfinished i := by
    obtain ⟨next, -, hp, -⟩ := hwaits
    exact ⟨3, _, hp, rfl⟩
  obtain ⟨-, hreached⟩ := deadlock_free hserved InFlight.free_empty
  obtain ⟨hgoes, hfinish⟩ := hreached d (Crew.Reaches.start.run _)
  exact ⟨hserved, InFlight.free_empty, ⟨_, hwaits⟩, hgoes hunfinished, hfinish⟩

end Desk

end Bourse
