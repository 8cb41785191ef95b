import Bourse.Text.Basic
import Bourse.Text.Bytes
import Bourse.Text.Case

/-!
# Database files

What is asked of the database engine, and whether a database that can be written comes of it. A name
that begins with `file:` is an address of its own, with escapes and parameters. The tables are made
when the service starts, so a database is of use only if it can be written: one that is not kept in
a file, or a new file in the working directory. Only the start of the process asks for this: the
service takes as given which databases open (`Config.setUp?`).
-/

namespace Bourse.Database

/-- What may be done to a file: to read it, to change it too, or also to create it. -/
inductive Access where
  | read
  | change
  | create
deriving DecidableEq

def Access.rank : Access → Nat
  | .read => 0
  | .change => 1
  | .create => 2

structure File where
  path : List UInt8
  access : Access
  inMemory : Bool
  parameters : List (String × String)
deriving DecidableEq

namespace File

/-- A zero byte ends a text. -/
def upToZero (bytes : List UInt8) : List UInt8 :=
  bytes.takeWhile (· ≠ 0)

def plain (bytes : List UInt8) : List UInt8 :=
  upToZero (Text.resolveEscapes bytes)

/-- The names and values after the question mark of a name. One without a name does not count. -/
def parametersOf (query : List UInt8) : List (String × String) :=
  let pairs := (Text.splitList 0x26 query).map fun piece =>
    let (name, value) := Text.cutFirst 0x3D piece
    (Text.decodeUtf8 (plain name), Text.decodeUtf8 (plain value))
  pairs.filter (·.1 ≠ "")

/-- The path and what follows it; a host before it has to be this one. -/
def afterHost? : List UInt8 → Option (List UInt8)
  | 0x2F :: 0x2F :: rest =>
    let host := rest.takeWhile (· ≠ 0x2F)
    if host = [] || host = "localhost".toUTF8.toList then some (rest.drop host.length) else none
  | rest => some rest

/-- A parameter grants no more than was asked for already, unless nothing was to be kept in a
file. -/
def limit? (f : File) (access : Access) : Option File :=
  if f.inMemory || access.rank ≤ f.access.rank then
    some { f with access := access, inMemory := false }
  else none

/-- What a parameter in the name changes; none when it is refused. -/
def set? (f : File) : String × String → Option File
  | ("mode", "ro") => f.limit? .read
  | ("mode", "rw") => f.limit? .change
  | ("mode", "rwc") => f.limit? .create
  | ("mode", "memory") => some { f with access := .change, inMemory := true }
  | ("mode", _) => none
  | ("cache", "shared") | ("cache", "private") => some f
  | ("cache", _) => none
  | _ => some f

/-- A file by its name, or by the address that the name is. A name holds no zero byte. -/
def ofName? (name : List UInt8) (access : Access) (inMemory : Bool) : Option File :=
  if name.contains 0 then none
  else if "file:".toUTF8.toList.isPrefixOf name then do
    let rest ← afterHost? (name.drop 5)
    let (path, query) := Text.cutFirst 0x3F (rest.takeWhile (· ≠ 0x23))
    let parameters := parametersOf query
    parameters.foldlM set? ⟨plain path, access, inMemory, parameters⟩
  else some ⟨name, access, inMemory, []⟩

/-- The layers through which files are reached. The last one keeps them in memory. -/
def layers : List String :=
  ["unix", "unix-excl", "unix-dotfile", "unix-none", "memdb"]

/-- The layer that is asked for last. -/
def layer? (f : File) : Option String :=
  f.parameters.reverse.lookup "vfs"

/-- The 32-bit number that a text begins with, in decimal or, after `0x`, in hexadecimal digits. One
that is too large counts as zero. -/
def leadingNumber (s : String) : Nat :=
  let decimal := s.toUTF8.toList.takeWhile fun b => 0x30 ≤ b && b ≤ 0x39
  let hexadecimal := (s.toUTF8.toList.drop 2).takeWhile fun b => (Text.hexByte? b).isSome
  let (base, digits) : Nat × List UInt8 :=
    if decimal = [0x30] && s.toUTF8.toList[1]?.any (fun b => b = 0x78 || b = 0x58) then
      (16, hexadecimal)
    else (10, decimal)
  let value := digits.foldl (fun n b => n * base + ((Text.hexByte? b).getD 0).toNat) 0
  if value ≤ 0x7FFFFFFF then value else 0

/-- A number counts by its last eight bits. -/
def isTrue (s : String) : Bool :=
  if s.toList.head?.any Char.isDigit then leadingNumber s % 256 ≠ 0
  else ["on", "yes", "true"].contains (Text.asciiLower s)

/-- A file that is taken never to change; the first such parameter counts. -/
def isImmutable (f : File) : Bool :=
  (f.parameters.lookup "immutable").any isTrue

/-- A database without a name is kept for as long as it is open. -/
def isTransient (f : File) : Bool :=
  f.inMemory || f.path = [] || f.path = ":memory:".toUTF8.toList

/-- The names on the way from the working directory, the last one first; none when the way leads out
of it. -/
def steps? (path : List UInt8) : Option (List (List UInt8)) :=
  if path.head? = some 0x2F then none
  else (Text.splitList 0x2F path).foldlM step []
where
  step (names : List (List UInt8)) (name : List UInt8) : Option (List (List UInt8)) :=
    if name = [] || name = ".".toUTF8.toList then some names
    else if name = "..".toUTF8.toList then names.tail?
    else some (name :: names)

/-- A file can be new in the working directory itself. Its journal has eight more letters, and no
name has more than 255. -/
def isNewFile (path : List UInt8) : Bool :=
  match steps? path with
  | some [name] => name.length + 8 ≤ 255
  | _ => false

def isWritable (f : File) : Bool :=
  f.access ≠ .read && f.layer?.all layers.contains &&
    (f.isTransient || (!f.isImmutable &&
      if f.layer? = some "memdb" then f.path.length + 8 ≤ 1024
      else f.access = .create && (f.parameters.lookup "modeof").isNone && isNewFile f.path))

end File

end Bourse.Database
