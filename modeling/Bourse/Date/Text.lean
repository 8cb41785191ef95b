import Bourse.Date
import Bourse.Text.Basic
import Bourse.Text.Integer

/-!
# Date text

Dates are written year, month and day with hyphens between them: the year in four digits, with a
sign and at least four digits outside `0 … 9999`. Reading is more lenient: blanks may stand before
each number, and in slack text also before a hyphen and at the end.
-/

namespace Bourse.Date

/-- At least `width` digits, with zeros in front. -/
def padded (width n : Nat) : List Char :=
  let digits := Nat.toDigits 10 n
  List.replicate (width - digits.length) '0' ++ digits

def yearChars (year : Int) : List Char :=
  if 0 ≤ year ∧ year ≤ 9999 then padded 4 year.toNat
  else (if year < 0 then '-' else '+') :: padded 4 year.natAbs

def isoChars (d : Date) : List Char :=
  yearChars d.year ++ '-' :: padded 2 d.month ++ '-' :: padded 2 d.day

def iso (d : Date) : String :=
  String.ofList d.isoChars

/-- A number of one digit up to `width` digits, and the text after it. -/
def readDigits (width : Nat) (cs : List Char) : Option (Nat × List Char) :=
  let digits := (cs.takeWhile Char.isDigit).take width
  if digits.isEmpty then none else some (Nat.ofDigitChars 10 digits 0, cs.drop digits.length)

/-- A year: four digits at most without a sign, any number with one. -/
def readYear (cs : List Char) : Option (Int × List Char) :=
  match cs with
  | '-' :: rest => (readDigits rest.length rest).map fun (n, rest) => (-(n : Int), rest)
  | '+' :: rest => (readDigits rest.length rest).map fun (n, rest) => ((n : Int), rest)
  | rest => (readDigits 4 rest).map fun (n, rest) => ((n : Int), rest)

def readHyphen (slack : Bool) (cs : List Char) : Option (List Char) :=
  match if slack then Text.skipBlanks cs else cs with
  | '-' :: rest => some rest
  | _ => none

def readChars (slack : Bool) (cs : List Char) : Option Date := do
  let (year, cs) ← readYear (Text.skipBlanks cs)
  let cs ← readHyphen slack cs
  let (month, cs) ← readDigits 2 (Text.skipBlanks cs)
  let cs ← readHyphen slack cs
  let (day, cs) ← readDigits 2 (Text.skipBlanks cs)
  if (if slack then Text.skipBlanks cs else cs).isEmpty then of? year month day else none

/-- Reads a date with blanks allowed around every part. -/
def readSlack (s : String) : Option Date :=
  readChars true s.toList

/-- The first characters that take exactly `bytes` bytes; none when a character is cut. -/
def takeBytes : Nat → List Char → Option (List Char)
  | 0, _ => some []
  | _, [] => none
  | bytes, c :: rest =>
    if c.utf8Size ≤ bytes then (takeBytes (bytes - c.utf8Size) rest).map (c :: ·) else none

/-- Reads a date from the first ten bytes of a text, whatever follows them. -/
def readStart (s : String) : Option Date :=
  (takeBytes 10 s.toList).bind (readChars false)

end Bourse.Date
