import Bourse.Number.Decimal
import Bourse.Text.Case

/-!
# Doubles in free text

A double as it may stand in a text cell: an optional sign, then digits with an optional point and
exponent, or one of the words `inf`, `infinity` and `nan` in any case. At least one digit is needed
before or after the point, and nothing may follow.
-/

namespace Bourse.Number

/-- A decimal without its sign. -/
def readUnsigned (negative : Bool) (cs : List Char) : Option Float :=
  let whole := cs.takeWhile Char.isDigit
  let (fraction, rest) := match cs.dropWhile Char.isDigit with
    | '.' :: rest => (rest.takeWhile Char.isDigit, rest.dropWhile Char.isDigit)
    | rest => ([], rest)
  if whole.isEmpty && fraction.isEmpty then none
  else match readExponent rest with
    | some (e, []) =>
      some (ofDecimal negative (Nat.ofDigitChars 10 (whole ++ fraction) 0)
        (e.getD 0 - fraction.length))
    | _ => none

def readFloat (s : String) : Option Float :=
  let (negative, cs) := match s.toList with
    | '-' :: cs => (true, cs)
    | '+' :: cs => (false, cs)
    | cs => (false, cs)
  let word := cs.map Text.asciiLowerChar
  if word = "inf".toList || word = "infinity".toList then
    some (if negative then -infinity else infinity)
  else if word = "nan".toList then some notANumber
  else readUnsigned negative cs

end Bourse.Number
