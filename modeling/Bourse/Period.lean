import Bourse.Date

/-!
# Periods

The calendar periods that analytics look back over, and the last day of the period some steps before
a given day. Steps are counted in 32-bit words: month, quarter and year numbers wrap around like
them, and a period whose end has no date is placed at the earliest date. A day or week step that
leaves the calendar stays where it began.
-/

namespace Bourse

inductive Period where
  | day
  | week
  | month
  | quarter
  | year
deriving DecidableEq, Repr

namespace Period

def all : List Period := [day, week, month, quarter, year]

def name : Period → String
  | day => "day"
  | week => "week"
  | month => "month"
  | quarter => "quarter"
  | year => "year"

/-- The value of an integer in a signed 32-bit word. -/
def word (n : Int) : Int :=
  n.bmod UInt32.size

/-- The last day of a month, which is the day before the next month's first. -/
def monthEnd (year : Int) (month : Nat) : Date :=
  let next := if month = 12 then Date.of? (word (year + 1)) 1 1 else Date.of? year (month + 1) 1
  (next.bind (·.addDays? (-1))).getD .first

/-- Months since January of year 0. -/
def monthIndex (d : Date) : Int :=
  d.year * 12 + (d.month - 1 : Nat)

/-- Quarters since the first quarter of year 0. -/
def quarterIndex (d : Date) : Int :=
  d.year * 4 + ((d.month - 1) / 3 : Nat)

/-- The last day of the period `k` steps before the one that holds `today`, and `today` itself for
no step. -/
def endBefore (today : Date) (unit : Period) (k : UInt32) : Date :=
  if k = 0 then today
  else match unit with
    | day => (today.addDays? (-(k.toNat : Int))).getD today
    | week =>
      let d := (today.addDays? (-(7 * k.toNat : Nat))).getD today
      (d.addDays? (6 - d.daysFromMonday : Nat)).getD d
    | month =>
      let index := word (monthIndex today - word k.toNat)
      monthEnd (index / 12) ((index % 12).toNat + 1)
    | quarter =>
      let index := word (quarterIndex today - word k.toNat)
      monthEnd (index / 4) ((index % 4).toNat * 3 + 3)
    | year => monthEnd (word (today.year - word k.toNat)) 12

@[simp]
theorem endBefore_zero (today : Date) (unit : Period) : unit.endBefore today 0 = today := rfl

end Period

/-- How far an analysis looks back: `order` periods. -/
structure Window where
  unit : Period
  order : UInt32
deriving DecidableEq

namespace Window

def maxOrder : Nat := 20

end Window

end Bourse
