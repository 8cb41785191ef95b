import Bourse.Change.Order

/-!
# Lagged changes

Every point of a series against the one before it. Points are taken apart by entity and report line,
each part is sorted by date, and the first point of a part has nothing before it.
-/

namespace Bourse

namespace SeriesPoint

/-- The part of a series that a point belongs to. -/
def part (p : SeriesPoint) : String × Option String :=
  (p.entity, p.report)

def comparePart (a b : String × Option String) : Ordering :=
  (compare a.1 b.1).then (compareReports a.2 b.2)

/-- The parts that occur, in ascending order. -/
def parts (points : List SeriesPoint) : List (String × Option String) :=
  ((points.map part).mergeSort fun a b => (comparePart a b).isLE).eraseReps

def sortByDate (points : List SeriesPoint) : List SeriesPoint :=
  points.mergeSort fun a b => (compare a.date b.date).isLE

/-- The change from the point before, when there is one. -/
def changeFrom (prior : Option SeriesPoint) (p : SeriesPoint) : ChangeRecord :=
  .make p.date p.entity (prior.map (·.date)) p.report (prior.bind (·.value)) p.value

/-- The changes along a part, `prior` being the point before its first. -/
def changesAlong (prior : Option SeriesPoint) : List SeriesPoint → List ChangeRecord
  | [] => []
  | p :: rest => changeFrom prior p :: changesAlong (some p) rest

/-- The lagged changes of a series, part by part and by date within a part. -/
def lagChanges (points : List SeriesPoint) : List ChangeRecord :=
  (parts points).flatMap fun key =>
    changesAlong none (sortByDate (points.filter fun p => p.part = key))

end SeriesPoint

end Bourse
