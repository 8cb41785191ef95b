/-!
# Doubles and decimals

The double nearest to a decimal, and the exact fraction that a finite double stands for. Both
directions work on natural numbers; rounding happens in one place, the reading of `m · 10^e`.
-/

namespace Bourse.Number

def infinity : Float :=
  Float.ofBits 0x7FF0000000000000

def notANumber : Float :=
  Float.ofBits 0x7FF8000000000000

/-- The double nearest to `± m · 10^e`, ties to even, infinite when too large. A decimal far outside
the range of doubles is settled by its number of digits alone. -/
def ofDecimal (negative : Bool) (m : Nat) (e : Int) : Float :=
  let size := (Nat.toDigits 10 m).length + e
  let magnitude :=
    if m = 0 then 0
    else if 310 < size then infinity
    else if size < -330 then 0
    else Float.ofScientific m (e < 0) e.natAbs
  if negative then -magnitude else magnitude

/-- The power of ten that a text begins with, when it begins with the mark `e`, and the text after
it. A mark without digits is refused. -/
def readExponent : List Char → Option (Option Int × List Char)
  | [] => some (none, [])
  | mark :: rest =>
    if mark = 'e' || mark = 'E' then
      let (negative, rest) := match rest with
        | '-' :: rest => (true, rest)
        | '+' :: rest => (false, rest)
        | rest => (false, rest)
      let digits := rest.takeWhile Char.isDigit
      let n : Int := Nat.ofDigitChars 10 digits 0
      if digits.isEmpty then none
      else some (some (if negative then -n else n), rest.dropWhile Char.isDigit)
    else some (none, mark :: rest)

/-- The double nearest to an integer. -/
def ofInt (n : Int) : Float :=
  ofDecimal (n < 0) n.natAbs 0

def isNegative (x : Float) : Bool :=
  x.toBits ≥ 0x8000000000000000

/-- The place of the leading bit of a significand, the fifty-third from the right. -/
def leadingBit : Nat := 0x10000000000000

/-- Significand and binary exponent of a finite double: its magnitude is `m · 2^q`. -/
def binaryParts (x : Float) : Nat × Int :=
  let bits := x.toBits.toNat
  let field : Nat := bits / leadingBit % 0x800
  let fraction : Nat := bits % leadingBit
  if field = 0 then (fraction, -1074) else (leadingBit + fraction, (field : Int) - 1075)

/-- Numerator and denominator of the magnitude of a finite double. -/
def magnitudeFraction (x : Float) : Nat × Nat :=
  let (m, q) := binaryParts x
  if q < 0 then (m, Nat.pow 2 q.natAbs) else (m * Nat.pow 2 q.natAbs, 1)

/-- The integer part of a double, held within the 64-bit range; zero when it is no number. -/
def toInt64 (x : Float) : Int64 :=
  if x.isNaN then 0
  else
    let (num, den) := magnitudeFraction x
    let n : Int := if x.isFinite then (num / den : Nat) else UInt64.size
    let signed := if isNegative x then -n else n
    if signed < Int64.minValue.toInt then Int64.minValue
    else if Int64.maxValue.toInt < signed then Int64.maxValue
    else Int64.ofInt signed

/-- Position in the total order of doubles: negative values before positive ones, `-0` before `0`,
and the value that is no number after infinity. -/
def totalRank (x : Float) : Int :=
  let bits := x.toBits.toNat
  if isNegative x then 0x7FFFFFFFFFFFFFFF - (bits : Int) else bits

def compareTotal (x y : Float) : Ordering :=
  compare (totalRank x) (totalRank y)

end Bourse.Number
