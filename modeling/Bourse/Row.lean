import Bourse.Date.Text
import Bourse.Number.FloatText

/-!
# Rows

A cell is a value bound to a statement or answered by one; a row names its cells by column. The
readers of a row are lenient in the way a database needs: a number may stand as text, and a date may
stand as text with a time after it.
-/

namespace Bourse

inductive Cell where
  | null
  | int (n : Int64)
  | double (x : Float)
  | text (s : String)
  | date (d : Date)
deriving DecidableEq

namespace Cell

def toFloat? : Cell → Option Float
  | double x => some x
  | int n => some (Number.ofInt n.toInt)
  | text s => Number.readFloat (Text.trim s)
  | _ => none

def toInt64? : Cell → Option Int64
  | int n => some n
  | double x => some (Number.toInt64 x)
  | _ => none

def toText? : Cell → Option String
  | text s => some s
  | date d => some d.iso
  | int n => some (Text.ofInt n.toInt)
  | _ => none

def toDate? : Cell → Option Date
  | date d => some d
  | text s => Date.readStart s
  | _ => none

end Cell

/-- Cells by column, each column once. -/
structure Row where
  cells : List (String × Cell)
deriving DecidableEq

namespace Row

def empty : Row := ⟨[]⟩

/-- Sets a column, in place of what it held. -/
def insert (r : Row) (column : String) (cell : Cell) : Row :=
  ⟨r.cells.filter (·.1 != column) ++ [(column, cell)]⟩

def ofList (cells : List (String × Cell)) : Row :=
  cells.foldl (fun r (column, cell) => r.insert column cell) empty

def get? (r : Row) (column : String) : Option Cell :=
  r.cells.lookup column

theorem lookup_insert (cells : List (String × Cell)) (column other : String) (cell : Cell) :
    (cells.filter (·.1 != column) ++ [(column, cell)]).lookup other
      = if other = column then some cell else cells.lookup other := by
  induction cells with
  | nil =>
    rw [List.filter_nil, List.nil_append, List.lookup_cons]
    split <;> simp_all
  | cons c rest ih =>
    by_cases hc : c.1 = column
    · rw [List.filter_cons_of_neg (by simp [hc]), ih]
      split
      · rfl
      · next ho => rw [List.lookup_cons, hc, beq_false_of_ne ho]
    · rw [List.filter_cons_of_pos (by simp [hc]), List.cons_append, List.lookup_cons,
        List.lookup_cons, ih]
      by_cases ho : other = c.1
      · simp [ho, hc]
      · simp [beq_false_of_ne ho]

theorem get?_insert (r : Row) (column other : String) (cell : Cell) :
    (r.insert column cell).get? other = if other = column then some cell else r.get? other :=
  lookup_insert r.cells column other cell

def float? (r : Row) (column : String) : Option Float :=
  (r.get? column).bind Cell.toFloat?

def int? (r : Row) (column : String) : Option Int64 :=
  (r.get? column).bind Cell.toInt64?

def text? (r : Row) (column : String) : Option String :=
  (r.get? column).bind Cell.toText?

def date? (r : Row) (column : String) : Option Date :=
  (r.get? column).bind Cell.toDate?

end Row

end Bourse
