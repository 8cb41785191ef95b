import Bourse.Change
import Bourse.Text.Case

/-!
# Pivots

Change records of one entity laid out in slots. A record goes to every slot that it matches, by its
prior date or by its report line; the last one that matches a slot fills it. Entities come in the
order of their first matching record.
-/

namespace Bourse

/-- The slots of a pivot: prior dates, or report lines whatever their case. -/
inductive PivotSlots where
  | byDate (dates : List String)
  | byLine (lines : List String)

namespace PivotSlots

def labels : PivotSlots → List String
  | byDate dates => dates
  | byLine lines => lines

def depth (slots : PivotSlots) : Nat :=
  slots.labels.length

/-- Whether a record belongs into the slot with the given label. -/
def accepts (slots : PivotSlots) (label : String) (r : ChangeRecord) : Bool :=
  match slots with
  | byDate _ => r.priorDate == some label
  | byLine _ => r.report.any fun line => Text.lower label == Text.lower line

def acceptsAny (slots : PivotSlots) (r : ChangeRecord) : Bool :=
  slots.labels.any fun label => slots.accepts label r

end PivotSlots

structure PivotRow where
  entity : String
  slots : List (Option Float)

namespace PivotRow

def slot (row : PivotRow) (i : Nat) : Option Float :=
  row.slots[i]?.join

end PivotRow

/-- The change of the last record of `entity` that the slot with the given label accepts. -/
def slotValue (slots : PivotSlots) (records : List ChangeRecord) (entity label : String) :
    Option Float :=
  (records.findRev? fun r => r.entity == entity && slots.accepts label r).bind (·.percentChange)

/-- The entities with a matching record, in the order of their first one. -/
def pivotEntities (slots : PivotSlots) (records : List ChangeRecord) : List String :=
  ((records.filter slots.acceptsAny).map (·.entity)).eraseDups

def pivot (slots : PivotSlots) (records : List ChangeRecord) : List PivotRow :=
  (pivotEntities slots records).map fun entity =>
    ⟨entity, slots.labels.map (slotValue slots records entity)⟩

end Bourse
