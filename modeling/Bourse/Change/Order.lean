import Bourse.Change
import Bourse.Number.Decimal

/-!
# Order of changes

Changes are ranked from the greatest to the least in the total order of doubles, undefined ones
last. Records are sorted by rank or by time, and ties keep the order that they come in.
-/

namespace Bourse

/-- The most rows that a ranking keeps. -/
def topCount : Nat := 50

/-- Greater values first, undefined ones last. -/
def compareDescending : Option Float → Option Float → Ordering
  | some a, some b => Number.compareTotal b a
  | some _, none => .lt
  | none, some _ => .gt
  | none, none => .eq

/-- An absent report line before every named one. -/
def compareReports : Option String → Option String → Ordering
  | some a, some b => compare a b
  | some _, none => .gt
  | none, some _ => .lt
  | none, none => .eq

namespace ChangeRecord

/-- Change descending, then entity, then the later date first. -/
def compareByRank (a b : ChangeRecord) : Ordering :=
  (compareDescending a.percentChange b.percentChange).then
    ((compare a.entity b.entity).then (compare b.date a.date))

/-- Date, then entity, then report line. -/
def compareByTime (a b : ChangeRecord) : Ordering :=
  (compare a.date b.date).then
    ((compare a.entity b.entity).then (compareReports a.report b.report))

def sortByRank (records : List ChangeRecord) : List ChangeRecord :=
  records.mergeSort fun a b => (compareByRank a b).isLE

def sortByTime (records : List ChangeRecord) : List ChangeRecord :=
  records.mergeSort fun a b => (compareByTime a b).isLE

end ChangeRecord

section Ranking

variable {α : Type}

/-- Value descending, undefined last, then code. -/
def compareRanked (value : α → Option Float) (code : α → String) (a b : α) : Ordering :=
  (compareDescending (value a) (value b)).then (compare (code a) (code b))

/-- The first of the items in rank order, at most `limit` and at most `topCount` of them. -/
def rankTop (limit : Nat) (value : α → Option Float) (code : α → String) (items : List α) :
    List α :=
  (items.mergeSort fun a b => (compareRanked value code a b).isLE).take (min limit topCount)

end Ranking

end Bourse
