import Bourse.Proofs.Desk.Steady
import Bourse.Proofs.Gateway

/-!
# Calls over one cache

A desk is asked call after call over one cache. What a key truly holds is the answer of a call about
its topic (`Desk.truth`), and no two calls about different topics share a key, so every part of the
desk is transparent (`transparent_answer`). The calls of a sequence are therefore answered as each
of them alone, whatever was kept before and however the clock moves (`answers_eq_alone`).
-/

namespace Bourse

namespace Desk

open Analysis

theorem transparent_computeChange (desk : Desk) (t : Tables) (metric : Metric) (filter : Filter)
    (window : Option Window) :
    Transparent t (desk.truth t) Eq (desk.computeChange metric filter window) :=
  transparent_iff.2 fun _ => steady_computeChange fun _ _ _ => rfl

theorem transparent_pivoted (desk : Desk) (t : Tables) (metric : Metric) (filter : Filter)
    (lines : Option (List String)) :
    Transparent t (desk.truth t) Eq (desk.pivoted metric filter lines) := by
  rw [pivoted_eq]
  exact transparent_iff.2 fun _ => steady_changes fun _ _ _ => rfl

/-- Over a sound backend a call is answered as with nothing cached. -/
theorem transparent_answer (desk : Desk) (t : Tables) {d : Call} (hd : d.topic.WellFormed) :
    Transparent t (desk.truth t) Eq (desk.answer d) :=
  transparent_iff.2 fun delay =>
    desk.steady_answer t hd fun _ _ => Conditions.inOrder_calm delay

section Answers

variable {desk : Desk} {t : Tables}

/-- The answers to some calls made one after another. -/
def answers (desk : Desk) {σ : Type} (services : Services σ) :
    List Call → σ → List (Except Fault Json)
  | [], _ => []
  | c :: calls, s =>
    let (answer, s) := (desk.answer c).run.run services s
    answer :: desk.answers services calls s

theorem answers_eq_plain (delay : Backend → ℕ) : ∀ {calls : List Call} {b : Backend},
    (∀ c ∈ calls, c.topic.WellFormed) → b.Sound t (desk.truth t) →
      desk.answers (Backend.timed delay) calls b = calls.map fun c => (desk.answer c).plain t
  | [], _, _, _ => rfl
  | c :: calls, b, hcalls, hb => by
    obtain ⟨hagree, hsound⟩ :=
      desk.transparent_answer t (hcalls c List.mem_cons_self) delay b hb
    rw [answers, List.map_cons, ← agrees_eq hagree]
    exact congrArg _ <| answers_eq_plain delay (fun d hd => hcalls d (List.mem_cons_of_mem c hd))
      hsound

/-- A working backend whose cache has nothing yet. -/
def emptyBackend (t : Tables) (purgeEvery now : ℕ) : Backend :=
  { Backend.fresh (.tables t) with cache := .empty purgeEvery, now := now }

theorem sound_emptyBackend (truth : String → Json → Prop) (purgeEvery now : ℕ) :
    (emptyBackend t purgeEvery now).Sound t truth :=
  ⟨rfl, rfl, rfl, CacheStore.everywhere_empty _⟩

/-- Calls made one after another over one cache are answered as each of them alone over an empty
one. -/
theorem answers_eq_alone (desk : Desk) (t : Tables) (delay : Backend → ℕ) (purgeEvery now : ℕ)
    {calls : List Call} (h : ∀ c ∈ calls, c.Made) :
    desk.answers (Backend.timed delay) calls (emptyBackend t purgeEvery now)
      = calls.map fun c =>
          ((desk.answer c).run.run Backend.services (Backend.fresh (.tables t))).1 := by
  have hformed : ∀ c ∈ calls, c.topic.WellFormed := fun c hc => (h c hc).wellFormed
  rw [answers_eq_plain delay hformed (sound_emptyBackend _ _ _)]
  refine List.map_congr_left fun c hc => ?_
  have halone := desk.transparent_answer t (hformed c hc) (fun _ => 0) (Backend.fresh (.tables t))
    ⟨rfl, rfl, rfl, CacheStore.everywhere_empty _⟩
  rw [Backend.timed_zero] at halone
  exact (agrees_eq halone.1).symm

end Answers

/-- A market with one ticker and seven sessions around the turn of a year. -/
def sampleTables : Tables where
  tickers := [⟨"AAA", "HOSE", "STOCK", "Banks"⟩]
  trades := ["2023-12-27", "2023-12-28", "2023-12-29", "2024-01-02", "2024-01-03", "2024-01-04",
    "2024-01-05"].map fun date => ⟨"AAA", date, some 10, some 20, none, none⟩
  ratios := []
  reports := []

def sampleDesk : Desk where
  gateway := ⟨.singleFlight, some 2, 2000⟩
  today := (Date.of? 2024 1 7).getD default
  sessionTtl := some 1

/-- Two limits with one topic, and sessions that the rankings share. -/
def sampleCalls : List Call :=
  [.topMovers ⟨[.hose], ["Banks"]⟩ 80, .priceChange ⟨[.hose], ["Banks"]⟩, .sessionDates .trades,
    .topMovers ⟨[.hose], ["Banks"]⟩ 50, .recentSessions .ratios]

theorem sampleCalls_made : ∀ c ∈ sampleCalls, c.Made := by
  have hmake : Filter.make "hsx" ["Banks "] = .ok ⟨[.hose], ["Banks"]⟩ := by decide +kernel
  have hfilter : ∀ c ∈ sampleCalls, c.filter? = some ⟨[.hose], ["Banks"]⟩ ∨ c.filter? = none := by
    decide
  intro c hc f hf
  rcases hfilter c hc with h | h <;> rw [h] at hf <;> cases hf
  exact ⟨_, _, hmake⟩

theorem answers_eq_alone_sample :
    (∀ c ∈ sampleCalls, c.Made) ∧
      sampleDesk.answers (Backend.timed fun b => 300 * b.log.length) sampleCalls
          (emptyBackend sampleTables 3 0)
        = sampleCalls.map fun c => ((sampleDesk.answer c).run.run Backend.services
            (Backend.fresh (.tables sampleTables))).1 :=
  ⟨sampleCalls_made, answers_eq_alone _ _ _ _ _ sampleCalls_made⟩

end Desk

end Bourse
