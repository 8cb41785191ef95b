import Bourse.Desk.Industries
import Bourse.Desk.Rankings
import Bourse.Proofs.Cache.Key
import Bourse.Proofs.Gateway.Plain

/-!
# Answers of a desk

The questions to a desk (`Call`) and their answers as JSON. What a key truly holds is the plain
answer of a call about its topic (`Desk.truth`), and since no two topics share a key it is that of
every such call (`Desk.truth_key`).
-/

namespace Bourse

/-- A question to a desk. -/
inductive Call where
  | priceChange (filter : Filter)
  | liquidityChange (filter : Filter)
  | equityChange (filter : Filter)
  | liabilitiesChange (filter : Filter)
  | industrySeries (metric : Metric) (filter : Filter) (window : Window)
  | marketBreadth (filter : Filter)
  | topMovers (filter : Filter) (limit : ℕ)
  | sessionDates (table : SessionTable)
  | recentSessions (table : SessionTable)
  | nearestSession (table : SessionTable) (target : Date)

namespace Call

def topic : Call → Topic
  | priceChange f => .ranking .priceChange f
  | liquidityChange f => .ranking .liquidityChange f
  | equityChange f => .ranking .equityChange f
  | liabilitiesChange f => .ranking .liabilitiesChange f
  | industrySeries m f w => .series m f w
  | marketBreadth f => .breadth f
  | topMovers f limit => .topMovers f (Desk.clampLimit limit)
  | sessionDates table => .sessionDates table
  | recentSessions table => .recentSessions table
  | nearestSession table target => .nearestSession table target

def filter? : Call → Option Filter
  | priceChange f | liquidityChange f | equityChange f | liabilitiesChange f
  | industrySeries _ f _ | marketBreadth f | topMovers f _ => some f
  | sessionDates _ | recentSessions _ | nearestSession .. => none

/-- The filter of the call was made from an exchange code and some labels. -/
def Made (c : Call) : Prop :=
  ∀ f, c.filter? = some f → ∃ exchange labels, Filter.make exchange labels = .ok f

theorem Made.wellFormed {c : Call} (h : c.Made) : c.topic.WellFormed := by
  have hf : ∀ f, c.filter? = some f → f.WellFormed := by
    intro f hf
    obtain ⟨exchange, labels, hmake⟩ := h f hf
    exact Filter.wellFormed_make hmake
  cases c <;> first | exact hf _ rfl | trivial

end Call

namespace Desk

/-- The answer to a call, as JSON. -/
def answer (desk : Desk) : Call → Analysis Json
  | .priceChange f => Payload.encode <$> desk.priceChange f
  | .liquidityChange f => Payload.encode <$> desk.liquidityChange f
  | .equityChange f => Payload.encode <$> desk.equityChange f
  | .liabilitiesChange f => Payload.encode <$> desk.liabilitiesChange f
  | .industrySeries m f w => Payload.encode <$> desk.industrySeries m f w
  | .marketBreadth f => Payload.encode <$> desk.marketBreadth f
  | .topMovers f limit => Payload.encode <$> desk.topMovers f limit
  | .sessionDates table => Payload.encode <$> desk.sessionDates table
  | .recentSessions table => Payload.encode <$> desk.recentSessions table
  | .nearestSession table target => Payload.encode <$> desk.nearestSession table target

theorem answer_eq_of_topic_eq (desk : Desk) {c d : Call} (h : c.topic = d.topic) :
    desk.answer c = desk.answer d := by
  cases c <;> cases d <;> simp only [Call.topic, reduceCtorEq, Topic.ranking.injEq,
    Topic.series.injEq, Topic.breadth.injEq, Topic.topMovers.injEq, Topic.sessionDates.injEq,
    Topic.recentSessions.injEq, Topic.nearestSession.injEq, true_and, false_and] at h
  case topMovers.topMovers f m g n =>
    obtain ⟨rfl, hlimit⟩ := h
    simp only [answer, Desk.topMovers, hlimit]
  case industrySeries.industrySeries =>
    obtain ⟨rfl, rfl, rfl⟩ := h
    rfl
  case nearestSession.nearestSession =>
    obtain ⟨rfl, rfl⟩ := h
    rfl
  all_goals rw [h]

variable (desk : Desk) (t : Tables)

/-- The value is the answer of a call whose topic has that key. -/
def truth (key : String) (j : Json) : Prop :=
  ∃ c : Call, c.topic.WellFormed ∧ c.topic.key.text = key ∧ (desk.answer c).plain t = .ok j

theorem truth_key {c : Call} (hc : c.topic.WellFormed) (j : Json) :
    desk.truth t c.topic.key.text j ↔ (desk.answer c).plain t = .ok j := by
  constructor
  · rintro ⟨d, hd, hkey, hj⟩
    rwa [desk.answer_eq_of_topic_eq (Topic.key_text_inj hd hc hkey)] at hj
  · intro hj
    exact ⟨c, hc, rfl, hj⟩

end Desk

end Bourse
