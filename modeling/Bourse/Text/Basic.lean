/-!
# Characters and pieces

Classes of characters, and what is done to a text by them: the blanks at its two ends are removed,
characters are escaped for a message, and a text is cut at a separator. There is always one piece
more than separators.
-/

namespace Bourse.Text

/-- The White_Space property of the Unicode standard. -/
def isBlank (c : Char) : Bool :=
  let n := c.toNat
  (9 ≤ n && n ≤ 13) || n == 0x20 || n == 0x85 || n == 0xA0 || n == 0x1680 ||
    (0x2000 ≤ n && n ≤ 0x200A) || n == 0x2028 || n == 0x2029 || n == 0x202F || n == 0x205F ||
    n == 0x3000

/-- The general category of control characters. -/
def isControl (c : Char) : Bool :=
  c.toNat < 0x20 || (0x7F ≤ c.toNat && c.toNat < 0xA0)

def skipBlanks (cs : List Char) : List Char :=
  cs.dropWhile isBlank

def trimChars (cs : List Char) : List Char :=
  (skipBlanks (skipBlanks cs).reverse).reverse

def trim (s : String) : String :=
  String.ofList (trimChars s.toList)

/-- Printable ASCII stays, quotes, backslash, tab and line ends are escaped by a backslash, and every
other character is written by its code point in hexadecimal. -/
def escapeChar (c : Char) : List Char :=
  if c = '\t' then ['\\', 't']
  else if c = '\r' then ['\\', 'r']
  else if c = '\n' then ['\\', 'n']
  else if c = '\'' || c = '"' || c = '\\' then ['\\', c]
  else if 0x20 ≤ c.toNat && c.toNat < 0x7F then [c]
  else ['\\', 'u', '\x7b'] ++ Nat.toDigits 16 c.toNat ++ ['\x7d']

def escape (s : String) : String :=
  String.ofList (s.toList.flatMap escapeChar)

section

variable {α : Type} [DecidableEq α]

def splitList (separator : α) : List α → List (List α)
  | [] => [[]]
  | a :: rest =>
    if a = separator then [] :: splitList separator rest
    else match splitList separator rest with
      | piece :: pieces => (a :: piece) :: pieces
      | [] => [[a]]

/-- The part before the first separator and the part after it, which is empty without one. -/
def cutFirst (separator : α) (items : List α) : List α × List α :=
  (items.takeWhile (· ≠ separator), (items.dropWhile (· ≠ separator)).drop 1)

end

def split (separator : Char) (s : String) : List String :=
  (splitList separator s.toList).map String.ofList

end Bourse.Text
