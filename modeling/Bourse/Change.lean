import Bourse.Row

/-!
# Changes

A change record compares the value of an entity at one date with the value at a prior one. The
change is a percentage of the size of the prior value, and is undefined when one value is missing,
when the prior one is zero, or when the result is not finite.
-/

namespace Bourse

def percentChange (prior current : Option Float) : Option Float :=
  match prior, current with
  | some prior, some current =>
    if prior == 0.0 then none
    else
      let change := (current - prior) / prior.abs * 100.0
      if change.isFinite then some change else none
  | _, _ => none

structure ChangeRecord where
  date : String
  entity : String
  /-- The date compared against. -/
  priorDate : Option String
  /-- The report line, for what is reported by line. -/
  report : Option String
  priorValue : Option Float
  currentValue : Option Float
  percentChange : Option Float
deriving DecidableEq

/-- The record whose change is that of its two values. -/
def ChangeRecord.make (date entity : String) (priorDate report : Option String)
    (prior current : Option Float) : ChangeRecord where
  date := date
  entity := entity
  priorDate := priorDate
  report := report
  priorValue := prior
  currentValue := current
  percentChange := Bourse.percentChange prior current

/-- A value of an entity at a date, before any comparison. -/
structure SeriesPoint where
  date : String
  entity : String
  report : Option String
  value : Option Float
deriving DecidableEq

/-- The record in a row of a comparison; none without a date or an entity. -/
def ChangeRecord.ofRow? (r : Row) : Option ChangeRecord := do
  let date ← r.text? "period"
  let entity ← r.text? "entity"
  return .make date entity (r.text? "prior_period") (r.text? "report")
    (r.float? "prior_value") (r.float? "current_value")

/-- The point in a row of a series; none without a date or an entity. -/
def SeriesPoint.ofRow? (r : Row) : Option SeriesPoint := do
  let date ← r.text? "d"
  let entity ← r.text? "entity"
  return ⟨date, entity, r.text? "report", r.float? "v"⟩

end Bourse
