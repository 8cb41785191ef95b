import Bourse.Text.Basic
import Bourse.Text.Bytes
import Bourse.Text.Case

/-!
# Requests

What a call brings along: the path and the query string of its target, the pairs of the query, and
the id under which the call is logged. In a query a plus sign is a blank and `%XX` a byte, and empty
pairs are left out. A caller may supply the id; one that is malformed is passed over.
-/

namespace Bourse.Web

/-- A component in plain text: plus signs are blanks, and then the escapes are resolved. -/
def decodeComponent (bytes : List UInt8) : String :=
  Text.decodeUtf8 (Text.resolveEscapes (bytes.map fun b => if b = 0x2B then 0x20 else b))

/-- The names and values of a query string, in order. -/
def queryPairs (query : String) : List (String × String) :=
  let pieces := (Text.splitList 0x26 query.toUTF8.toList).filter (!·.isEmpty)
  pieces.map fun piece =>
    let (name, value) := Text.cutFirst 0x3D piece
    (decodeComponent name, decodeComponent value)

/-- An id has at most this many letters, digits, hyphens, underscores and points. -/
def maxRequestIdLength : Nat := 64

def isRequestIdChar (c : Char) : Bool :=
  c.isAlphanum || c = '-' || c = '_' || c = '.'

def readRequestId (raw : String) : Option String :=
  let id := Text.trim raw
  if id ≠ "" && id.utf8ByteSize ≤ maxRequestIdLength && id.toList.all isRequestIdChar then some id
  else none

/-- Whether a header value can be read as text: visible ASCII, blanks and tabs. -/
def isHeaderText (s : String) : Bool :=
  s.toList.all fun c => c = '\t' || (0x20 ≤ c.toNat && c.toNat < 0x7F)

structure Request where
  method : String
  target : String
  headers : List (String × String)

namespace Request

/-- A character that ends the part of an address that names a host. -/
def endsAuthority (c : Char) : Bool :=
  c = '/' || c = '?' || c = '#'

/-- A target without the scheme and the authority, which one in absolute form begins with. -/
def withoutAuthority (target : List Char) : List Char :=
  match target.dropWhile fun c => c ≠ ':' && !endsAuthority c with
  | ':' :: '/' :: '/' :: rest => rest.dropWhile (!endsAuthority ·)
  | _ => target

/-- The path, and the query string after the question mark. A fragment is no part of either. -/
def parts (r : Request) : String × String :=
  let (address, _) := Text.cutFirst '#' (withoutAuthority r.target.toList)
  let (path, query) := Text.cutFirst '?' address
  (String.ofList path, String.ofList query)

/-- A call on a line of its own: the method, a blank, and the target. -/
def ofLine? (line : String) : Option Request :=
  match Text.split ' ' (Text.trim line) with
  | [method, target] => some ⟨method, target, []⟩
  | _ => none

/-- The id that the first header of that name gives, when it is one. -/
def suppliedId (r : Request) : Option String :=
  match r.headers.find? fun h => Text.sameIgnoringAsciiCase h.1 "x-request-id" with
  | some (_, value) => if isHeaderText value then readRequestId value else none
  | none => none

end Request

end Bourse.Web
