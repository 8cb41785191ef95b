import Bourse.Proofs.Filter
import Bourse.Proofs.Text.Integer
import Bourse.Web.Routes

/-!
# Which parameters are admitted

What a call may ask for, parameter by parameter: a filter of admitted codes and labels, the names of
periods, and the numbers within their bounds. Each reader judges its parameter by this (`Judged`),
and so does a route with the parameters that it reads (`MarketQuery.judged_filter`, `judged_window`,
`judged_limit`).
-/

namespace Bourse

/-- The periods by number and by name, in small letters. -/
def Period.readable : List String :=
  ["0", "day", "1", "week", "2", "month", "3", "quarter", "4", "year"]

theorem Period.judged_read (s : String) :
    Judged (Text.lower (Text.trim s) ∈ readable) (read s) := by
  unfold read readable
  dsimp only
  generalize Text.lower (Text.trim s) = text
  split_ifs with hday hweek hmonth hquarter hyear
  · have hname : text = "0" ∨ text = "day" := by simpa using hday
    exact .accepted (by rcases hname with rfl | rfl <;> decide) _
  · have hname : text = "1" ∨ text = "week" := by simpa using hweek
    exact .accepted (by rcases hname with rfl | rfl <;> decide) _
  · have hname : text = "2" ∨ text = "month" := by simpa using hmonth
    exact .accepted (by rcases hname with rfl | rfl <;> decide) _
  · have hname : text = "3" ∨ text = "quarter" := by simpa using hquarter
    exact .accepted (by rcases hname with rfl | rfl <;> decide) _
  · have hname : text = "4" ∨ text = "year" := by simpa using hyear
    exact .accepted (by rcases hname with rfl | rfl <;> decide) _
  · refine .refused ?_ _
    simp_all

namespace Web.MarketQuery

open Text (IsNumeral)

/-- What the filter of a query is read from, when it is admitted. A wildcard asks for every known
industry, and then the other labels are not looked at. -/
structure FilterAdmitted (q : MarketQuery) : Prop where
  exchange : Text.upper (Text.trim (q.exchange.getD "ALL")) ∈ Exchange.codes
  industries : q.labels = [] ∨ (∃ label ∈ q.labels, Filter.isWildcard label) ∨
    ∀ label ∈ q.labels, Filter.IsLabel label

structure WindowAdmitted (q : MarketQuery) : Prop where
  unit : ∀ text, q.windowType = some text → Text.lower (Text.trim text) ∈ Period.readable
  order : ∀ raw, q.order = some raw → ∃ n, IsNumeral (Text.trim raw) n ∧ 1 ≤ n ∧ n ≤ 20

def LimitAdmitted (q : MarketQuery) : Prop :=
  ∀ raw, q.limit = some raw → ∃ n, IsNumeral (Text.trim raw) n ∧ n < UInt64.size

theorem judged_filter (q : MarketQuery) : Judged q.FilterAdmitted q.filter := by
  have hexchange := Exchange.judged_select (q.exchange.getD "ALL")
  have hindustries := Filter.judged_selectIndustries q.labels
  refine (hexchange.bind fun exchanges _ => ?_).of_iff
    ⟨fun h => ⟨h.1, h.2⟩, fun h => ⟨h.exchange, h.industries⟩⟩
  rw [bind_pure_comp]
  exact hindustries.map _

theorem judged_order (unit : Period) (raw : String) :
    Judged (∃ n, IsNumeral (Text.trim raw) n ∧ 1 ≤ n ∧ n ≤ 20)
      (readOrder raw >>= Window.make unit) := by
  have hread := @Text.readNat_eq_ok_iff (UInt32.size - 1) (Text.trim raw)
  unfold readOrder
  generalize Text.readNat (UInt32.size - 1) (Text.trim raw) = reading at hread
  rcases reading with _ | n
  · refine .refused ?_ _
    rintro ⟨n, hn, -, hle⟩
    cases (hread (n := n)).2 ⟨hn, Nat.le_trans hle (by decide)⟩
  · obtain ⟨hnumeral, hbound⟩ := hread.1 rfl
    have hvalue : (UInt32.ofNat n).toNat = n :=
      UInt32.toNat_ofNat_of_lt' (Nat.lt_of_le_pred (by decide) hbound)
    have houtside : UInt32.ofNat n = 0 ∨ Window.maxOrder < (UInt32.ofNat n).toNat ↔
        ¬(1 ≤ n ∧ n ≤ 20) := by
      rw [← UInt32.toNat_inj, hvalue, Window.maxOrder]
      change n = 0 ∨ _ ↔ _
      omega
    change Judged _ (Window.make unit (.ofNat n))
    simp only [Window.make, Bool.or_eq_true, decide_eq_true_eq, houtside]
    split_ifs with hrange
    · exact .accepted ⟨n, hnumeral, hrange⟩ _
    · refine .refused ?_ _
      rintro ⟨m, hm, hmrange⟩
      -- a text is a numeral of one value only
      obtain rfl := Except.ok.inj ((hread (n := m)).2 ⟨hm, Nat.le_trans hmrange.2 (by decide)⟩)
      exact hrange hmrange

theorem judged_window (q : MarketQuery) : Judged q.WindowAdmitted q.window := by
  have hfields : q.WindowAdmitted ↔ (∀ text, q.windowType = some text →
      Text.lower (Text.trim text) ∈ Period.readable) ∧ ∀ raw, q.order = some raw →
      ∃ n, IsNumeral (Text.trim raw) n ∧ 1 ≤ n ∧ n ≤ 20 :=
    ⟨fun h => ⟨h.unit, h.order⟩, fun h => ⟨h.1, h.2⟩⟩
  have hquarter : Judged True (.ok Period.quarter) := .accepted trivial _
  have hdefault : ∀ unit, Judged True (.ok defaultOrder >>= Window.make unit) := fun unit =>
    .accepted trivial (Window.mk unit defaultOrder)
  refine Judged.of_iff ?_ hfields.symm
  unfold window
  rcases q.order with _ | raw
  · rcases q.windowType with _ | text
    · exact (hquarter.bind fun unit _ => hdefault unit).of_iff (by simp)
    · exact ((Period.judged_read text).bind fun unit _ => hdefault unit).of_iff (by simp)
  · rcases q.windowType with _ | text
    · exact (hquarter.bind fun unit _ => judged_order unit raw).of_iff (by simp)
    · exact ((Period.judged_read text).bind fun unit _ => judged_order unit raw).of_iff (by simp)

theorem judged_limit (q : MarketQuery) : Judged q.LimitAdmitted q.limitValue := by
  unfold limitValue LimitAdmitted
  rcases q.limit with _ | raw
  · exact .accepted (fun _ h => by cases h) _
  · have hread := @Text.readNat_eq_ok_iff (UInt64.size - 1) (Text.trim raw)
    simp only [readLimit, Option.some.injEq, forall_eq']
    generalize Text.readNat (UInt64.size - 1) (Text.trim raw) = reading at hread
    rcases reading with _ | n
    · refine .refused ?_ _
      rintro ⟨n, hn, hlt⟩
      cases (hread (n := n)).2 ⟨hn, Nat.le_sub_one_of_lt hlt⟩
    · have hn := hread.1 rfl
      exact .accepted ⟨n, hn.1, Nat.lt_of_le_sub_one (by decide) hn.2⟩ n

end Web.MarketQuery

end Bourse
