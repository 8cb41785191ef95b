import Bourse.Proofs.Desk.Calls

/-!
# Keys of calls

A call whose answer is kept begins by looking up the key of its topic (`firstKey?_answer`), whatever
the desk. Two such calls have one topic when they ask the same (`Call.topic_eq_iff`), and topics are
told apart by their keys, so two calls begin with the same key just when they ask the same
(`firstKey?_answer_eq_iff`).
-/

namespace Bourse

variable {α β : Type}

/-- The key that a program looks up before anything else. -/
def Program.firstKey? : Program α → Option String
  | .lookup key _ => some key
  | _ => none

theorem Program.firstKey?_bind {p : Program α} {key : String} (h : p.firstKey? = some key)
    (f : α → Program β) : (p.bind f).firstKey? = some key := by
  cases p with
  | lookup k next => exact h
  | _ => cases h

namespace Gateway

variable [Payload α] (g : Gateway) (key : String) (ttl : Option ℕ) (computation : Analysis α)

theorem firstKey?_getOrComputeFor :
    (g.getOrComputeFor key ttl computation).run.firstKey? = some key := by
  unfold getOrComputeFor
  cases g.strategy <;> rfl

theorem firstKey?_encoded :
    (Payload.encode <$> g.getOrComputeFor key ttl computation).run.firstKey? = some key :=
  Program.firstKey?_bind (g.firstKey?_getOrComputeFor key ttl computation) _

end Gateway

namespace Call

/-- The answer of the call is kept: all answers are, a series only for a metric with a window. -/
def Kept : Call → Prop
  | industrySeries metric _ _ => metric.isWindowed = true
  | _ => True

/-- Two calls ask the same: one operation with equal filters, windows, tables and days. Limits
count as they are after being put within `1 … 50`. -/
def AsksAs : Call → Call → Prop
  | priceChange f, priceChange g
  | liquidityChange f, liquidityChange g
  | equityChange f, equityChange g
  | liabilitiesChange f, liabilitiesChange g
  | marketBreadth f, marketBreadth g => f = g
  | industrySeries m f w, industrySeries n g v => m = n ∧ f = g ∧ w = v
  | topMovers f m, topMovers g n => f = g ∧ max 1 (min m 50) = max 1 (min n 50)
  | sessionDates table, sessionDates other
  | recentSessions table, recentSessions other => table = other
  | nearestSession table day, nearestSession other day' => table = other ∧ day = day'
  | _, _ => False

theorem topic_eq_iff {c d : Call} : c.topic = d.topic ↔ c.AsksAs d := by
  cases c <;> cases d <;> simp [topic, AsksAs, Desk.clampLimit, topCount]

end Call

namespace Desk

theorem firstKey?_answer (desk : Desk) {c : Call} (hc : c.Kept) :
    (desk.answer c).run.firstKey? = some c.topic.key.text := by
  cases c with
  | industrySeries m f w =>
    have hm : m.isWindowed = true := hc
    simp only [answer, industrySeries, if_pos hm]
    exact Gateway.firstKey?_encoded ..
  | _ => exact Gateway.firstKey?_encoded ..

/-- Calls with filters made from any codes and labels begin with the same key just when they ask
the same, of whatever desks. -/
theorem firstKey?_answer_eq_iff (desk desk' : Desk) {c d : Call} (hc : c.Made) (hd : d.Made)
    (hkept : c.Kept) (hkept' : d.Kept) :
    (∃ key, (desk.answer c).run.firstKey? = some key) ∧
      ((desk.answer c).run.firstKey? = (desk'.answer d).run.firstKey? ↔ c.AsksAs d) := by
  rw [firstKey?_answer desk hkept, firstKey?_answer desk' hkept', Option.some.injEq,
    ← Call.topic_eq_iff]
  refine ⟨⟨_, rfl⟩, fun h => ?_, fun h => by rw [h]⟩
  exact Topic.key_text_inj hc.wellFormed hd.wellFormed h

/-- Two limits above the bound ask the same. -/
theorem firstKey?_answer_eq_iff_limits :
    let c := Call.topMovers ⟨[.hose], ["Banks"]⟩ 80
    let d := Call.topMovers ⟨[.hose], ["Banks"]⟩ 50
    c.Made ∧ d.Made ∧ c.Kept ∧ d.Kept ∧
      (∃ key, (sampleDesk.answer c).run.firstKey? = some key) ∧
      ((sampleDesk.answer c).run.firstKey? = (sampleDesk.answer d).run.firstKey? ↔ c.AsksAs d) := by
  intro c d
  have hc : c.Made := sampleCalls_made c (by simp [sampleCalls, c])
  have hd : d.Made := sampleCalls_made d (by simp [sampleCalls, d])
  exact ⟨hc, hd, trivial, trivial,
    firstKey?_answer_eq_iff sampleDesk sampleDesk hc hd trivial trivial⟩

end Desk

end Bourse
