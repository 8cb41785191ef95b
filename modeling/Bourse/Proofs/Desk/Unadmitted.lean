import Bourse.Proofs.Desk.Requests

/-!
# Tickers that a filter leaves out

No answer depends on a ticker that its filter does not admit. Every statement of an analysis is
about sessions or about the tickers of the filter that it was asked with, so over tables that are
the same for that filter it is given the same rows, step after step
(`Program.Within.run_withTables`), and comes to the same, whatever was cached before and whatever
fails (`Desk.alike_of_sameFor`).
-/

namespace Bourse

variable {α : Type}

namespace Backend

/-- The backend with other tables. -/
def withTables (t : Tables) (b : Backend) : Backend :=
  { b with source := .tables t }

theorem fresh_withTables (t : Tables) :
    (fresh (.tables .empty)).withTables t = fresh (.tables t) := rfl

variable (b : Backend) (t : Tables) (key : String)

theorem lookup_withTables :
    (b.withTables t).lookup key = ((b.lookup key).1, (b.lookup key).2.withTables t) := by
  rcases b with ⟨_, _, _ | _ | _, _, _, _, _⟩ <;> rfl

theorem store_withTables (text : String) (ttl : Option ℕ) :
    (b.withTables t).store key text ttl
      = ((b.store key text ttl).1, (b.store key text ttl).2.withTables t) := by
  rcases b with ⟨_, _, _, _ | _ | _, _, _, _⟩ <;> rfl

end Backend

variable {t t' : Tables}

/-- Where the act asks the tables, both answer the same. -/
def Act.Alike (t t' : Tables) (act : Act) : Prop :=
  ∀ statement, act = .ask statement → t.answer statement = t'.answer statement

/-- A program that asks only what two tables answer alike runs alike over them. -/
theorem Program.Within.run_withTables {p : Program α} (hp : p.Within (Act.Alike t t'))
    (b : Backend) : p.run Backend.services (b.withTables t')
      = ((p.run Backend.services (b.withTables t)).1,
          (p.run Backend.services (b.withTables t)).2.withTables t') := by
  induction p generalizing b with
  | done a => rfl
  | lookup key next ih =>
    have hlater := ih (b.lookup key).1 (hp.2 _) (b.lookup key).2
    simpa only [run, Backend.services, Backend.lookup_withTables] using hlater
  | store key text ttl next ih =>
    have hlater := ih (b.store key text ttl).1 (hp.2 _) (b.store key text ttl).2
    simpa only [run, Backend.services, Backend.store_withTables] using hlater
  | ask statement next ih =>
    have hrows : t.answer statement = t'.answer statement := hp.1 statement rfl
    have hlater := ih (.ok (t.answer statement)) (hp.2 _) (b.note (.asked statement))
    change (next (.ok (t'.answer statement))).run _ ((b.note (.asked statement)).withTables t') = _
    rw [← hrows]
    exact hlater
  | enter key next ih => exact ih hp.2 (b.enter 0 key)
  | leave key next ih => exact ih hp.2 (b.leave 0 key)
  | compute next ih => exact ih hp.2 (b.note .computed)

/-- The analysis comes to the same over both tables from any state of the cache, and leaves the same
behind. -/
def Analysis.AlikeOver (t t' : Tables) (a : Analysis α) : Prop :=
  ∀ b : Backend, a.run.run Backend.services (b.withTables t')
    = ((a.run.run Backend.services (b.withTables t)).1,
        (a.run.run Backend.services (b.withTables t)).2.withTables t')

namespace Desk

open Analysis Act

section Within

variable (desk : Desk) {allowed : Act → Prop}
  (hkeys : ∀ (key : String) (act : Act), act.On key → allowed act)
  (hsessions : FindsSessions allowed) {f : Filter} (hask : AsksFor allowed f)

include hkeys hsessions hask

theorem within_industrySeries (metric : Metric) (window : Window) :
    (desk.industrySeries metric f window).run.Within allowed := by
  unfold industrySeries
  split_ifs
  · exact desk.gateway.within_kept (hkeys _)
      (within_bind ((desk.finds_within hsessions).computeChange (asks_within hask) metric _)
        fun _ => within_pure _)
  · exact within_throw _

theorem within_topMovers (limit : ℕ) : (desk.topMovers f limit).run.Within allowed :=
  desk.gateway.within_kept (hkeys _) <|
    within_bind ((desk.finds_within hsessions).recentSessions .trades) fun _ =>
      within_bind (within_ask (hask _ rfl)) fun _ => within_pure _

theorem within_marketBreadth : (desk.marketBreadth f).run.Within allowed :=
  desk.gateway.within_kept (hkeys _) <|
    within_bind (desk.finds_within hsessions).breadthSessions fun _ =>
      within_bind (within_ask (hask _ rfl)) fun _ =>
        within_bind (within_ask (hask _ rfl)) fun _ => within_pure _

/-- A ranking is computed from the rows of its metric. -/
theorem within_ranked [Payload α] (metric : Metric) (lines : Option (List String)) (key : String)
    (rank : List PivotRow → α) :
    (desk.gateway.getOrCompute key do
      let rows ← desk.pivoted metric f lines
      return rank rows).run.Within allowed :=
  desk.gateway.within_kept (hkeys _) <|
    within_bind ((desk.finds_within hsessions).pivoted (asks_within hask) metric lines)
      fun _ => within_pure _

end Within

/-- All answers are the same over tables that are the same for their filter. -/
theorem alike_of_sameFor (desk : Desk) (f : Filter) (h : t.SameFor f t') :
    (desk.priceChange f).AlikeOver t t' ∧ (desk.liquidityChange f).AlikeOver t t' ∧
      (desk.equityChange f).AlikeOver t t' ∧ (desk.liabilitiesChange f).AlikeOver t t' ∧
      (∀ metric window, (desk.industrySeries metric f window).AlikeOver t t') ∧
      (desk.marketBreadth f).AlikeOver t t' ∧
      ∀ limit, (desk.topMovers f limit).AlikeOver t t' := by
  have hkeys : ∀ (key : String) (act : Act), act.On key → act.Alike t t' := by
    rintro key act hact statement rfl
    cases hact
  have hsessions : FindsSessions (Act.Alike t t') := by
    refine ⟨fun {key} _ => hkeys key, fun asked hasked statement heq => ?_⟩
    cases heq
    exact h.answer_eq (.inl hasked)
  have hask : AsksFor (Act.Alike t t') f := by
    intro asked hasked statement heq
    cases heq
    exact h.answer_eq (.inr hasked)
  have hranked := fun {α : Type} [Payload α] => desk.within_ranked (α := α) hkeys hsessions hask
  have hseries := desk.within_industrySeries hkeys hsessions hask
  have hbreadth := desk.within_marketBreadth hkeys hsessions hask
  have hmovers := desk.within_topMovers hkeys hsessions hask
  exact ⟨(hranked _ _ _ _).run_withTables, (hranked _ _ _ _).run_withTables,
    (hranked _ _ _ _).run_withTables, (hranked _ _ _ _).run_withTables,
    fun metric window => (hseries metric window).run_withTables, hbreadth.run_withTables,
    fun limit => (hmovers limit).run_withTables⟩

/-- The sample market with another ticker, which trades at every session for one price. -/
def tablesWith (other : Ticker) (close : Float) : Tables :=
  sampleTables.withTicker other (sampleTables.trades.map fun r => { r with close := some close })

theorem sameFor_tablesWith (close close' : Float) :
    (tablesWith ⟨"WWW", "HOSE", "COVERED_WARRANT", "Banks"⟩ close).SameFor ⟨[.hose], ["Banks"]⟩
      (tablesWith ⟨"MMM", "HNX", "STOCK", "Media"⟩ close') :=
  Tables.sameFor_withTicker (by decide) (by decide) (by decide) (by decide)
    (by simp only [List.map_map, Function.comp_def])

theorem alike_of_sameFor_sample :
    let t := tablesWith ⟨"WWW", "HOSE", "COVERED_WARRANT", "Banks"⟩ 1
    let t' := tablesWith ⟨"MMM", "HNX", "STOCK", "Media"⟩ 90
    t.SameFor ⟨[.hose], ["Banks"]⟩ t' ∧
      ((sampleDesk.topMovers ⟨[.hose], ["Banks"]⟩ 5).run.run Backend.services
          (Backend.fresh (.tables t'))).1
        = ((sampleDesk.topMovers ⟨[.hose], ["Banks"]⟩ 5).run.run Backend.services
            (Backend.fresh (.tables t))).1 := by
  have hmovers : ∀ {t t' : Tables}, t.SameFor ⟨[.hose], ["Banks"]⟩ t' →
      ((sampleDesk.topMovers ⟨[.hose], ["Banks"]⟩ 5).run.run Backend.services
          (Backend.fresh (.tables t'))).1
        = ((sampleDesk.topMovers ⟨[.hose], ["Banks"]⟩ 5).run.run Backend.services
            (Backend.fresh (.tables t))).1 := by
    intro t t' h
    obtain ⟨-, -, -, -, -, -, hboth⟩ := sampleDesk.alike_of_sameFor _ h
    rw [← Backend.fresh_withTables t', hboth]
    rfl
  exact ⟨sameFor_tablesWith 1 90, hmovers (sameFor_tablesWith 1 90)⟩

end Desk

end Bourse
