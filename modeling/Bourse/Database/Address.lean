import Bourse.Database.File
import Bourse.Text.Integer
import Bourse.Web.Request

/-!
# Database addresses

An address reads `sqlite:LOCATION?PARAMETERS`, where a location after `//` begins with a host. It is
put into normal form first: of a user, a password, a host and a port nothing stays that says
nothing, and the dots of a path are resolved. Then the scheme is taken off, and the parameters say
how the location is to be opened. This too is for the start of the process alone.
-/

namespace Bourse.Database

open Web.Request (endsAuthority)

def isHexDigit (c : Char) : Bool :=
  c.isDigit || ('a' ≤ c && c ≤ 'f') || ('A' ≤ c && c ≤ 'F')

def isHexGroup (cs : List Char) : Bool :=
  cs ≠ [] && cs.length ≤ 4 && cs.all isHexDigit

/-- A number below 256 without leading zeros. -/
def isByteNumeral (cs : List Char) : Bool :=
  cs ≠ [] && (cs = ['0'] || cs.head? ≠ some '0') && (Text.readDigits 255 .tooLarge cs 0).isOk

def isDottedQuad (cs : List Char) : Bool :=
  let parts := Text.splitList '.' cs
  parts.length = 4 && parts.all isByteNumeral

/-- How many 16-bit groups the parts stand for. The last one may be four bytes with dots, which
stand for two groups. -/
def groupCount? : List (List Char) → Option Nat
  | [] => some 0
  | [part] => if isHexGroup part then some 1 else if isDottedQuad part then some 2 else none
  | part :: parts => if isHexGroup part then (groupCount? parts).map (· + 1) else none

def colonParts (cs : List Char) : List (List Char) :=
  if cs = [] then [] else Text.splitList ':' cs

/-- The texts around the first double colon. -/
def cutDoubleColon? : List Char → Option (List Char × List Char)
  | ':' :: ':' :: rest => some ([], rest)
  | c :: rest => (cutDoubleColon? rest).map fun (left, right) => (c :: left, right)
  | [] => none

/-- Eight groups, or at most seven with a double colon in place of the others. -/
def isIpv6 (cs : List Char) : Bool :=
  match cutDoubleColon? cs with
  | none => groupCount? (colonParts cs) = some 8
  | some (left, right) =>
    let before := colonParts left
    before.all isHexGroup && (groupCount? (colonParts right)).any (before.length + · ≤ 7)

def isHostChar (c : Char) : Bool :=
  c ≠ Char.ofNat 0 && c ∉ " <>@[\\]^|".toList

def isHost : List Char → Bool
  | '[' :: rest => rest.getLast? = some ']' && isIpv6 rest.dropLast
  | cs => cs.all isHostChar

/-- The host that a text begins with, and the text after it. A colon between brackets belongs to
the host. -/
def takeHost (inBrackets : Bool) : List Char → List Char × List Char
  | [] => ([], [])
  | c :: rest =>
    if (c = ':' && !inBrackets) || endsAuthority c then ([], c :: rest)
    else
      let (host, rest) := takeHost (c = '[' || (inBrackets && c ≠ ']')) rest
      (c :: host, rest)

/-- A user and a password, each left out when empty. A colon in the password is escaped. -/
def credentials (cs : List Char) : List Char :=
  let (user, password) := Text.cutFirst ':' cs
  if user = [] && password = [] then []
  else user ++ (if password = [] then [] else ':' :: password.flatMap escapeColon) ++ ['@']
where
  escapeColon (c : Char) : List Char :=
    if c = ':' then ['%', '3', 'A'] else [c]

/-- A port number, without leading zeros, and the text after it. A colon alone is left out. -/
def takePort? : List Char → Option (List Char × List Char)
  | ':' :: rest =>
    let digits := rest.takeWhile Char.isDigit
    let rest := rest.dropWhile Char.isDigit
    match Text.readDigits (UInt16.size - 1) .tooLarge digits 0 with
    | .ok n =>
      if rest.head?.all fun c => endsAuthority c || c = '\\' then
        some (if digits = [] then [] else ':' :: Nat.toDigits 10 n, rest)
      else none
    | .error _ => none
  | rest => some ([], rest)

/-- The authority that a text begins with, and the text after it. Without a host there are neither
a user nor a port. -/
def takeAuthority? (cs : List Char) : Option (List Char × List Char) := do
  let whole := cs.takeWhile (!endsAuthority ·)
  let start := whole.length - (whole.reverse.takeWhile (· ≠ '@')).length
  let afterUser := cs.drop start
  guard !(start = 1 && afterUser.head?.any endsAuthority)
  let login := credentials (whole.take (start - 1))
  let (host, afterHost) := takeHost false afterUser
  guard (isHost host && (host ≠ [] || (login = [] && afterHost.head? ≠ some ':')))
  let (port, rest) ← takePort? afterHost
  return (login ++ host ++ port, rest)

def isSingleDot (segment : List Char) : Bool :=
  [".", "%2e"].contains (Text.asciiLower (String.ofList segment))

def isDoubleDot (segment : List Char) : Bool :=
  ["..", ".%2e", "%2e.", "%2e%2e"].contains (Text.asciiLower (String.ofList segment))

/-- The segments that remain, where `done` holds those before, the nearest first. Dots at the end
leave an empty segment. -/
def resolveDots (done : List (List Char)) : List (List Char) → List (List Char)
  | [] => done.reverse
  | segment :: rest =>
    let done :=
      if isDoubleDot segment then done.tail else if isSingleDot segment then done
      else segment :: done
    if rest = [] && (isDoubleDot segment || isSingleDot segment) then ([] :: done).reverse
    else resolveDots done rest

/-- A path that is not empty begins with a slash. -/
def normalPath (cs : List Char) : List Char :=
  let segments := match cs with
    | '/' :: rest => Text.splitList '/' rest
    | _ => Text.splitList '/' cs
  if cs = [] then [] else (resolveDots [] segments).flatMap ('/' :: ·)

structure Address where
  location : String
  access : Access := .change
  inMemory : Bool := false
  /-- The file is taken never to change. -/
  immutable : Bool := false
  layer : Option String := none
deriving DecidableEq

namespace Address

/-- What a parameter changes; none for an unknown parameter or an unknown value. -/
def set? (a : Address) : String × String → Option Address
  | ("mode", "ro") => some { a with access := .read }
  | ("mode", "rw") => some a
  | ("mode", "rwc") => some (if a.access = .read then a else { a with access := .create })
  | ("mode", "memory") => some { a with inMemory := true }
  | ("cache", "private") | ("cache", "shared") => some a
  | ("immutable", "true") | ("immutable", "1") => some { a with immutable := true }
  | ("immutable", "false") | ("immutable", "0") => some { a with immutable := false }
  | ("vfs", name) => some { a with layer := some name }
  | _ => none

/-- Line breaks and tabs are left out, as are blanks and control characters at the two ends. -/
def clean (cs : List Char) : List Char :=
  let kept := (cs.dropWhile (· ≤ ' ')).reverse.dropWhile (· ≤ ' ')
  kept.reverse.filter (· ∉ ['\t', '\n', '\r'])

/-- What follows the scheme, in normal form and without the slashes before a host. Only a location
that begins with a slash has a path to be resolved. -/
def normalBody? (cs : List Char) : Option (List Char) :=
  let resolve (cs : List Char) : List Char :=
    normalPath (cs.takeWhile (· ∉ ['?', '#'])) ++ cs.dropWhile (· ∉ ['?', '#'])
  match cs with
  | '/' :: '/' :: rest =>
    (takeAuthority? rest).map fun (authority, rest) => authority ++ resolve rest
  | '/' :: _ => some (resolve cs)
  | _ => some cs

/-- The scheme's name may stand before the location again. -/
def dropSchemes : List Char → List Char
  | 's' :: 'q' :: 'l' :: 'i' :: 't' :: 'e' :: ':' :: rest => dropSchemes rest
  | rest => rest

/-- The address that a text names; the case of the scheme's letters does not matter. -/
def read? (text : String) : Option Address := do
  let cs := clean text.toList
  let (scheme, rest) := Text.cutFirst ':' cs
  guard (cs.contains ':' && Text.asciiLower (String.ofList scheme) = "sqlite")
  let body ← normalBody? rest
  let (location, parameters) := Text.cutFirst '?' (dropSchemes body)
  let bytes := Text.resolveEscapes (String.ofList location).toUTF8.toList
  let location ← String.fromUTF8? ⟨bytes.toArray⟩
  (Web.queryPairs (String.ofList parameters)).foldlM set? { location := location }

/-- What is asked of the engine. A location that comes with a layer or is never to change is taken
as it stands, up to a zero byte; any other is a name. -/
def file? (a : Address) : Option File :=
  let name := a.location.toUTF8.toList
  if a.immutable || a.layer.isSome then
    let layer := a.layer.map fun s =>
      ("vfs", Text.decodeUtf8 (File.upToZero s.toUTF8.toList))
    let immutable := if a.immutable then [("immutable", "true")] else []
    some ⟨File.upToZero name, a.access, a.inMemory, immutable ++ layer.toList⟩
  else File.ofName? name a.access a.inMemory

def isWritable (a : Address) : Bool :=
  a.file?.any (·.isWritable)

end Address

end Bourse.Database
