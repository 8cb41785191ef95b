import Bourse.Fault
import Bourse.Json.Payload

/-!
# Responses

What is sent back: data in an envelope that says so, or a failure with its status, its code and its
message.
-/

namespace Bourse.Web

inductive Body where
  | empty
  | json (value : Json)
  | text (s : String)

def Body.written : Body → String
  | empty => ""
  | json value => value.text
  | text s => s

structure Response where
  status : Nat
  contentType : Option String
  requestId : Option String
  body : Body

/-- A failed call, as it is answered and logged. -/
structure Failure where
  status : Nat
  code : String
  message : String

namespace Failure

def ofFault (fault : Fault) : Failure where
  status := match fault with
    | .invalid _ => 400
    | .timeout .. => 504
    | _ => 500
  code := fault.code
  message := fault.message

/-- A failure outside the market's own faults. -/
def internal (message : String) : Failure :=
  ⟨500, "INTERNAL_ERROR", message⟩

def body (f : Failure) : Json :=
  .object [("success", .bool false), ("error", .string f.message), ("code", .string f.code)]

end Failure

namespace Response

def json (status : Nat) (value : Json) : Response :=
  ⟨status, some "application/json", none, .json value⟩

def text (status : Nat) (s : String) : Response :=
  ⟨status, some "text/plain; charset=utf-8", none, .text s⟩

def empty (status : Nat) : Response :=
  ⟨status, none, none, .empty⟩

def success {α : Type} [Payload α] (data : α) : Response :=
  json 200 (.object [("success", .bool true), ("data", Payload.encode data)])

def failure (f : Failure) : Response :=
  json f.status f.body

/-- The status and the body, for an answer on a line of its own. -/
def line (r : Response) : String :=
  Text.ofNat r.status ++ " " ++ r.body.written

def withRequestId (id : String) (r : Response) : Response :=
  { r with requestId := some id }

def withoutBody (r : Response) : Response :=
  { r with body := .empty }

end Response

end Bourse.Web
