/-!
# Dates

Days of the proleptic Gregorian calendar, from 1 January -262143 to 31 December 262142. A date is a
year, a month and a day that exist; its serial number counts the days since 1 January of year 1.
Dates are ordered by their serial numbers, and steps by days go through them. Steps by months keep
the day, or take the month's last day where it is shorter.
-/

namespace Bourse

def isLeapYear (year : Int) : Bool :=
  year % 4 == 0 && (year % 100 != 0 || year % 400 == 0)

/-- Days of a month; none outside `1 … 12`. -/
def daysInMonth (year : Int) (month : Nat) : Nat :=
  if month = 0 || 12 < month then 0
  else if month = 2 then if isLeapYear year then 29 else 28
  else if month = 4 || month = 6 || month = 9 || month = 11 then 30
  else 31

structure Date where
  year : Int
  month : Nat
  day : Nat
  year_ge : -262143 ≤ year
  year_le : year ≤ 262142
  day_pos : 1 ≤ day
  day_le : day ≤ daysInMonth year month
deriving DecidableEq

namespace Date

/-- The earliest date. -/
def first : Date := ⟨-262143, 1, 1, by decide, by decide, by decide, by decide⟩

instance : Inhabited Date := ⟨first⟩

/-- The date of a year, month and day, when there is one. -/
def of? (year : Int) (month day : Nat) : Option Date :=
  if h : (-262143 ≤ year ∧ year ≤ 262142) ∧ 1 ≤ day ∧ day ≤ daysInMonth year month then
    some ⟨year, month, day, h.1.1, h.1.2, h.2.1, h.2.2⟩
  else none

theorem of?_self (d : Date) : of? d.year d.month d.day = some d := by
  simp [of?, d.year_ge, d.year_le, d.day_pos, d.day_le]

/-- Days from 1 January of year 1 to 1 January of `year`. -/
def daysBeforeYear (year : Int) : Int :=
  365 * (year - 1) + (year - 1) / 4 - (year - 1) / 100 + (year - 1) / 400

/-- Days of the year before the month that follows month `month`. -/
def daysThroughMonth (year : Int) : Nat → Nat
  | 0 => 0
  | month + 1 => daysThroughMonth year month + daysInMonth year (month + 1)

/-- Days since 1 January of year 1, negative before it. -/
def serial (d : Date) : Int :=
  daysBeforeYear d.year + daysThroughMonth d.year (d.month - 1) + (d.day - 1 : Nat)

instance : LE Date := ⟨fun a b => a.serial ≤ b.serial⟩

instance : LT Date := ⟨fun a b => a.serial < b.serial⟩

instance (a b : Date) : Decidable (a ≤ b) := inferInstanceAs (Decidable (a.serial ≤ b.serial))

instance (a b : Date) : Decidable (a < b) := inferInstanceAs (Decidable (a.serial < b.serial))

/-- The year that holds the day with the given serial number: 400 years have 146097 days, and the
year so estimated is off by one at most. -/
def yearOfSerial (n : Int) : Int :=
  let guess := n * 400 / 146097 + 1
  if n < daysBeforeYear guess then guess - 1
  else if daysBeforeYear (guess + 1) ≤ n then guess + 1
  else guess

/-- The month that holds the day `rest` days after the year's first, looked for from `month` on. -/
def monthOfRest (year : Int) (rest : Nat) : Nat → Nat → Nat
  | 0, month => month
  | fuel + 1, month =>
    if rest < daysThroughMonth year month then month else monthOfRest year rest fuel (month + 1)

/-- The date with the given serial number, when it lies in range. -/
def ofSerial? (n : Int) : Option Date :=
  let year := yearOfSerial n
  let rest := (n - daysBeforeYear year).toNat
  let month := monthOfRest year rest 11 1
  of? year month (rest - daysThroughMonth year (month - 1) + 1)

def addDays? (d : Date) (n : Int) : Option Date :=
  ofSerial? (d.serial + n)

/-- `k` months earlier, on the same day or on the last day of a shorter month. -/
def subMonths? (d : Date) (k : Nat) : Option Date :=
  let index := d.year * 12 + (d.month - 1 : Nat) - k
  let year := index / 12
  let month := (index % 12).toNat + 1
  of? year month (min d.day (daysInMonth year month))

/-- Days since the Monday on or before `d`. -/
def daysFromMonday (d : Date) : Nat :=
  (d.serial % 7).toNat

end Date

end Bourse
