import Bourse.Desk.Industries
import Bourse.Desk.Rankings
import Bourse.Proofs.Program.Acts
import Bourse.Proofs.Tables.Admitted

/-!
# Parts of a desk's analyses

An analysis of a desk is put together from sessions that it resolves and from statements that it
asks. A property that sequences have when their parts do (`Analysis.Composes`) so holds of every
plan and every computation of change once it holds of the sessions and of the statements
(`Desk.Finds.plan`, `Desk.Finds.computeChange`), and of the sessions once it holds of what is kept
under their keys (`Desk.finds_of_keeps`).
-/

namespace Bourse

/-- About the sessions of a table. -/
def Topic.OfSessions : Topic → Prop
  | sessionDates _ | recentSessions _ | nearestSession .. => True
  | ranking .. | series .. | breadth _ | topMovers .. => False

/-- Statements about the tickers of the filter have the property, or those about no filter. -/
def Analysis.Asks (P : (α : Type) → Analysis α → Prop) (filter? : Option Filter) : Prop :=
  ∀ statement : Statement, statement.filter? = filter? → P (List Row) (ask statement)

namespace Desk

open Analysis

/-- The property composes, and the sessions that the desk resolves have it. -/
structure Finds (desk : Desk) (P : (α : Type) → Analysis α → Prop) : Prop extends Composes P where
  sessionDates : ∀ table, P SessionDates (desk.sessionDates table)
  recentSessions : ∀ table, P RecentSessions (desk.recentSessions table)
  nearestSession : ∀ table target, P Date (desk.nearestSession table target)

/-- What a statement about no filter is asked for, kept under the key of a topic about sessions,
has the property. -/
def Keeps (desk : Desk) (P : (α : Type) → Analysis α → Prop) : Prop :=
  ∀ {α : Type} [Payload α] (topic : Topic), topic.OfSessions →
    ∀ (ttl : Option ℕ) (statement : Statement), statement.filter? = none →
      ∀ decode : List Row → Except Fault α, P α (desk.gateway.getOrComputeFor topic.key.text ttl
        (ask statement >>= fun rows => liftM (decode rows)))

theorem finds_of_keeps {desk : Desk} {P : (α : Type) → Analysis α → Prop} (hP : Composes P)
    (hkeeps : desk.Keeps P) : desk.Finds P where
  toComposes := hP
  sessionDates table := hkeeps (.sessionDates table) trivial _ _ rfl _
  recentSessions table := hkeeps (.recentSessions table) trivial _ _ rfl _
  nearestSession table target := hkeeps (.nearestSession table target) trivial _ _ rfl _

namespace Finds

variable {desk : Desk} {P : (α : Type) → Analysis α → Prop} (hP : desk.Finds P)

include hP

theorem sampleSessions (table : SessionTable) (targets : List Date) :
    P (List Date) (desk.sampleSessions table targets) :=
  hP.bind (hP.mapM (hP.nearestSession table) targets) fun _ => hP.pure _

theorem sampleDates (measure : Measure) (window : Window) :
    P (List String) (desk.sampleDates measure window) := by
  unfold Desk.sampleDates
  cases measure.sessions with
  | some table => exact hP.bind (hP.sampleSessions table _) fun _ => hP.pure _
  | none => exact hP.lift _

theorem plan (metric : Metric) (window : Option Window) : P Plan (desk.plan metric window) := by
  unfold Desk.plan
  cases metric.strategy with
  | sessionAnchors => exact hP.bind (hP.sessionDates .trades) fun _ => hP.pure _
  | quarterAnchors =>
    exact hP.bind (hP.mapM (hP.nearestSession .trades) _) fun _ => hP.pure _
  | offset =>
    refine hP.bind (hP.lift _) fun window =>
      hP.bind (hP.sampleDates metric.measure window) fun dates => ?_
    cases leastText dates with
    | some start => exact hP.pure _
    | none => exact hP.throw _
  | latestQuarters => exact hP.bind (hP.lift _) fun _ => hP.pure _
  | lag =>
    exact hP.bind (hP.lift _) fun window =>
      hP.bind (hP.sampleDates metric.measure window) fun _ => hP.pure _

theorem breadthSessions : P BreadthSessions desk.breadthSessions :=
  hP.bind (hP.recentSessions .trades) fun _ =>
    hP.bind (hP.nearestSession .trades _) fun _ =>
      hP.bind (hP.nearestSession .trades _) fun _ => hP.pure _

variable {filter : Filter} (hask : Asks P (some filter))

include hask

theorem execute (metric : Metric) (plan : Plan) :
    P (List ChangeRecord) (Desk.execute metric filter plan) := by
  unfold Desk.execute
  cases plan with
  | compare current prior strict =>
    exact hP.bind (hask _ rfl) fun _ => hP.bind (hP.pure _) fun _ => hP.pure _
  | lag dates => exact hP.bind (hask _ rfl) fun _ => hP.bind (hP.pure _) fun _ => hP.pure _

theorem computeChange (metric : Metric) (window : Option Window) :
    P (List ChangeRecord) (desk.computeChange metric filter window) :=
  hP.bind (hP.plan metric window) fun plan => hP.execute hask metric plan

theorem pivoted (metric : Metric) (lines : Option (List String)) :
    P (List PivotRow) (desk.pivoted metric filter lines) :=
  hP.bind (hP.plan metric none) fun plan =>
    hP.bind (hP.execute hask metric plan) fun _ => hP.pure _

end Finds

end Desk

end Bourse
