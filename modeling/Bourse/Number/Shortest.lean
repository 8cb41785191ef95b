import Bourse.Number.Decimal

/-!
# Shortest digits

The fewest decimal digits that read back to a given double. For one digit, two digits and so on,
the value's two neighbours on the grid of that many digits are tried; the first grid with a hit
wins, of two hits the nearer one, and a tie goes to the even neighbour.
-/

namespace Bourse.Number

/-- A natural number of units `10^exponent`. -/
structure Scaled where
  digits : Nat
  exponent : Int
deriving DecidableEq, Repr

/-- The exponent `e` with `10^(e-1) ≤ num / den < 10^e`. -/
def decimalSize (num den : Nat) : Int :=
  if den ≤ num then (Nat.toDigits 10 (num / den)).length
  else 1 - ((Nat.toDigits 10 ((den - 1) / num)).length : Int)

/-- Whether the decimal reads back to the double `x`, which is positive. -/
def Scaled.readsBack (d : Scaled) (x : Float) : Bool :=
  (ofDecimal false d.digits d.exponent).toBits == x.toBits

/-- The neighbour of `num / den` on the grid `10^exponent` that reads back to `x`, if one does. -/
def neighbour? (x : Float) (num den : Nat) (exponent : Int) : Option Scaled :=
  let (n, d) :=
    if exponent < 0 then (num * Nat.pow 10 exponent.natAbs, den)
    else (num, den * Nat.pow 10 exponent.natAbs)
  let below : Scaled := ⟨n / d, exponent⟩
  let above : Scaled := ⟨n / d + 1, exponent⟩
  let twice := 2 * (n % d)
  match below.readsBack x, above.readsBack x with
  | true, true =>
    if twice < d || (twice == d && n / d % 2 == 0) then some below else some above
  | true, false => some below
  | false, true => some above
  | false, false => none

/-- Removes the zeros at the end of the digits, at most `fuel` of them. -/
def Scaled.stripZeros : Nat → Scaled → Scaled
  | 0, d => d
  | fuel + 1, d =>
    if d.digits % 10 = 0 && d.digits ≠ 0 then stripZeros fuel ⟨d.digits / 10, d.exponent + 1⟩ else d

/-- Shortest digits of the magnitude of a finite double. Seventeen digits always suffice. -/
def shortest (x : Float) : Scaled :=
  let x := x.abs
  let (num, den) := magnitudeFraction x
  if num = 0 then ⟨0, 0⟩
  else
    let size := decimalSize num den
    let found := (List.range' 1 17).findSome? fun (count : Nat) =>
      neighbour? x num den (size - count)
    (found.getD ⟨num, 0⟩).stripZeros 400

end Bourse.Number
