import Bourse.Number.Shortest
import Bourse.Text.Integer

/-!
# Numerals

A number as JSON writes it. A numeral keeps what was written, so reading a written numeral gives
the same numeral back; the double or the integer that it stands for is taken from it later, and
only an integer in the bounds that the reader asks for counts as one.
-/

namespace Bourse

structure Numeral where
  negative : Bool
  whole : Nat
  /-- The digits after the point, empty when there is no point. -/
  fraction : List Char
  /-- The power of ten, when one is written. -/
  exponent : Option Int
  fraction_digits : fraction.all Char.isDigit = true

namespace Numeral

def ofInt (n : Int) : Numeral :=
  ⟨n < 0, n.natAbs, [], none, rfl⟩

def text (n : Numeral) : List Char :=
  (if n.negative then ['-'] else []) ++ Nat.toDigits 10 n.whole
    ++ (if n.fraction.isEmpty then [] else '.' :: n.fraction)
    ++ (match n.exponent with
      | none => []
      | some e => 'e' :: Text.intChars e)

/-- How many digits of a numeral are kept. The middle between two doubles never has more. -/
def keptDigits : Nat := 768

/-- The double nearest to a numeral. Zeros at the end of the fraction do not count as digits, and
all digits after those kept count as a single one, so that a number on the middle between two
doubles that is written with so many digits leaves the middle. -/
def toFloat (n : Numeral) : Float :=
  let fraction := (n.fraction.reverse.dropWhile (· = '0')).reverse
  let digits := Nat.ofDigitChars 10 fraction n.whole
  let exponent := n.exponent.getD 0 - fraction.length
  let dropped := (Nat.toDigits 10 digits).length - keptDigits
  if dropped = 0 then Number.ofDecimal n.negative digits exponent
  else Number.ofDecimal n.negative (digits / Nat.pow 10 dropped * 10 + 1) (exponent + dropped - 1)

/-- The integer written, when neither point nor exponent is. `-0` is no integer. -/
def toInt? (n : Numeral) : Option Int :=
  if n.fraction.isEmpty && n.exponent.isNone && !(n.negative && n.whole == 0) then
    some (if n.negative then -(n.whole : Int) else n.whole)
  else none

/-- Where the decimal mark of a double goes: positional when the value lies from `10^-5` up to below
`10^16`, and otherwise behind the first digit, with an exponent. -/
def ofFloat (x : Float) : Numeral :=
  let d := Number.shortest x
  let digits := (Nat.toDigits 10 d.digits).filter Char.isDigit
  let point := digits.length + d.exponent
  let negative := Number.isNegative x
  let make (whole fraction : List Char) (exponent : Option Int) : Numeral :=
    ⟨negative, Nat.ofDigitChars 10 whole 0, fraction.filter Char.isDigit, exponent, by simp⟩
  if 0 ≤ d.exponent && point ≤ 16 then
    make (digits ++ List.replicate d.exponent.toNat '0') ['0'] none
  else if 0 < point && point ≤ 16 then
    make (digits.take point.toNat) (digits.drop point.toNat) none
  else if -5 < point && point ≤ 0 then
    make [] (List.replicate point.natAbs '0' ++ digits) none
  else make (digits.take 1) (digits.drop 1) (some (point - 1))

/-- The part after the digits: an optional exponent. -/
def readTail (negative : Bool) (whole : Nat) (fraction : List Char)
    (h : fraction.all Char.isDigit = true) (cs : List Char) : Option (Numeral × List Char) :=
  (Number.readExponent cs).map fun (e, rest) => (⟨negative, whole, fraction, e, h⟩, rest)

/-- Reads a numeral without its sign: no leading zeros, and a digit after every point. -/
def readUnsigned (negative : Bool) (cs : List Char) : Option (Numeral × List Char) :=
  let digits := cs.takeWhile Char.isDigit
  let whole := Nat.ofDigitChars 10 digits 0
  if digits.isEmpty || (digits.head? == some '0' && 1 < digits.length) then none
  else match cs.dropWhile Char.isDigit with
    | '.' :: rest =>
      let fraction := rest.takeWhile Char.isDigit
      if fraction.isEmpty then none
      else readTail negative whole fraction (by simp [fraction]) (rest.dropWhile Char.isDigit)
    | rest => readTail negative whole [] rfl rest

def read : List Char → Option (Numeral × List Char)
  | '-' :: cs => readUnsigned true cs
  | cs => readUnsigned false cs

end Numeral

end Bourse
