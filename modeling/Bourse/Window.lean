import Bourse.Fault
import Bourse.Text.Case

/-!
# Windows

A window is read from a period, by name or by number, and an order between 1 and 20. From a day it
gives the calendar days to sample and, for what is published per quarter or year, the labels of the
completed report periods.
-/

namespace Bourse

/-- A period by its name or its place in the list of periods. -/
def Period.read (s : String) : Except Fault Period :=
  let text := Text.lower (Text.trim s)
  if text = "0" || text = "day" then .ok .day
  else if text = "1" || text = "week" then .ok .week
  else if text = "2" || text = "month" then .ok .month
  else if text = "3" || text = "quarter" then .ok .quarter
  else if text = "4" || text = "year" then .ok .year
  else .error (.invalid (.windowType text))

namespace Window

def make (unit : Period) (order : UInt32) : Except Fault Window :=
  if order = 0 || maxOrder < order.toNat then .error (.invalid (.windowOrder order))
  else .ok ⟨unit, order⟩

/-- The window's part of a cache key. -/
def fragment (w : Window) : String :=
  Text.ofNat w.order.toNat ++ ":" ++ w.unit.name

/-- The days to sample, newest first: `today`, then one period end per step. -/
def anchors (today : Date) (w : Window) : List Date :=
  (List.range (w.order.toNat + 1)).map fun k => w.unit.endBefore today (.ofNat k)

end Window

/-- Today, one quarter back, four quarters back, and the same day four years back. -/
def liquidityAnchors (today : Date) : List Date :=
  [today, Period.quarter.endBefore today 1, Period.quarter.endBefore today 4,
    (today.subMonths? 48).getD today]

/-- The days from which the named session anchors are looked for. -/
structure SessionTargets where
  lastQuarterEnd : Date
  firstOfYear : Date
  oneYearBack : Date

def sessionTargets (today : Date) : SessionTargets where
  lastQuarterEnd := Period.quarter.endBefore today 1
  firstOfYear := (Date.of? today.year 1 1).getD today
  oneYearBack := (today.subMonths? 12).getD today

def quarterLabel (year : Int) (quarter : Nat) : String :=
  Text.ofInt year ++ "Q" ++ Text.ofNat quarter

/-- The label of the period `k` steps before the one of `today`. -/
def reportLabel (today : Date) (unit : Period) (k : Nat) : String :=
  if unit = .year then Text.ofInt (today.year - k)
  else
    let index := Period.quarterIndex today - k
    quarterLabel (index / 4) ((index % 4).toNat + 1)

/-- Labels of the `count` most recently completed report periods, oldest first. A count is a signed
word, so that one from `2^31` on asks for none. -/
def reportPeriods (today : Date) (unit : Period) (count : UInt32) : Except Fault (List String) :=
  if unit = .quarter || unit = .year then
    .ok (((List.range (Period.word count.toNat).toNat).map fun k =>
      reportLabel today unit (k + 1)).reverse)
  else .error (.invalid (.unpublished unit))

end Bourse
