import Bourse.Row

/-!
# Statement text

Statement text is made of fixed pieces and bound values. The text shows only a placeholder where a
value is bound; the values travel beside it, in the order of their placeholders. So no value ever
becomes part of the text.
-/

namespace Bourse

/-- How a bound value is marked: by `?`, or by `$1`, `$2` and so on. -/
inductive Placeholder where
  | question
  | dollar
deriving DecidableEq, Repr

/-- The mark of the value with the given number, counted from one. -/
def Placeholder.mark : Placeholder → Nat → String
  | question, _ => "?"
  | dollar, n => "$" ++ Text.ofNat n

/-- The style of the database that a connection address names. -/
def Placeholder.ofAddress (address : String) : Placeholder :=
  if "postgres".toList.isPrefixOf address.toList then dollar else question

namespace Sql

inductive Piece where
  | text (s : String)
  | bind (value : Cell)
deriving DecidableEq

def commaSeparated : List Cell → List Piece
  | [] => []
  | [value] => [.bind value]
  | value :: rest => .bind value :: .text ", " :: commaSeparated rest

/-- A list of values in parentheses; for no value the list that matches nothing. -/
def values (cells : List Cell) : List Piece :=
  if cells.isEmpty then [.text "(NULL)"]
  else .text "(" :: commaSeparated cells ++ [.text ")"]

def texts (items : List String) : List Piece :=
  values (items.map .text)

/-- The text, with `bound` values before it. -/
def textFrom (style : Placeholder) : Nat → List Piece → String
  | _, [] => ""
  | bound, .text s :: rest => s ++ textFrom style bound rest
  | bound, .bind _ :: rest => style.mark (bound + 1) ++ textFrom style (bound + 1) rest

def text (style : Placeholder) (pieces : List Piece) : String :=
  textFrom style 0 pieces

def Piece.value? : Piece → Option Cell
  | .text _ => none
  | .bind value => some value

def parameters (pieces : List Piece) : List Cell :=
  pieces.filterMap Piece.value?

theorem parameters_text (s : String) (rest : List Piece) :
    parameters (.text s :: rest) = parameters rest := rfl

theorem parameters_bind (value : Cell) (rest : List Piece) :
    parameters (.bind value :: rest) = value :: parameters rest := rfl

end Sql

end Bourse
