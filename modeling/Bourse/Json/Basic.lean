import Bourse.Json.Numeral

/-!
# JSON values

Values as JSON writes them, members in the order in which they stand. `unreadable` is a text or an
object whose escapes name half of a surrogate pair: it has the form of a value, so it may be passed
over, but nothing can be read from it.
-/

namespace Bourse

inductive Json where
  | null
  | bool (b : Bool)
  | number (n : Numeral)
  | string (s : String)
  | array (items : List Json)
  | object (members : List (String × Json))
  | unreadable

namespace Json

def ofInt (n : Int) : Json :=
  .number (.ofInt n)

/-- A double that is not finite has no numeral and is written as `null`. -/
def ofFloat (x : Float) : Json :=
  if x.isFinite then .number (.ofFloat x) else .null

/-- The values of the named fields, `none` for a missing one. An object may hold other members, but
none of the named ones twice; an array stands for the fields in order and holds exactly as many. -/
def fields (names : List String) : Json → Option (List (Option Json))
  | .object members => names.mapM fun name =>
    match members.filter (·.1 == name) with
    | [] => some none
    | [(_, value)] => some (some value)
    | _ => none
  | .array items => if items.length = names.length then some (items.map some) else none
  | _ => none

/-- The value of a member of an object, the last one when the name is repeated. -/
def member? (name : String) : Json → Option Json
  | .object members => (members.reverse.find? (·.1 == name)).map (·.2)
  | _ => none

end Json

end Bourse
