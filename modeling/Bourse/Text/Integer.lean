/-!
# Reading integers

A decimal integer with an optional sign, read within bounds. A refusal names its cause: nothing to
read, a character that is no digit, or a value outside the bounds on either side.
-/

namespace Bourse.Text

inductive IntegerFault where
  | empty
  | notADigit
  | tooLarge
  | tooSmall
deriving DecidableEq, Repr

def IntegerFault.message : IntegerFault → String
  | .empty => "cannot parse integer from empty string"
  | .notADigit => "invalid digit found in string"
  | .tooLarge => "number too large to fit in target type"
  | .tooSmall => "number too small to fit in target type"

/-- The first thing wrong with a run of digits read from the left: a character that is no digit,
or the digit at which the value leaves the bound. -/
def readDigits (bound : Nat) (outside : IntegerFault) :
    List Char → Nat → Except IntegerFault Nat
  | [], value => .ok value
  | c :: rest, value =>
    if !c.isDigit then .error .notADigit
    else
      let next := value * 10 + (c.toNat - '0'.toNat)
      if bound < next then .error outside else readDigits bound outside rest next

/-- An integer without a minus sign, at most `bound`. -/
def readNat (bound : Nat) (s : String) : Except IntegerFault Nat :=
  match s.toList with
  | [] => .error .empty
  | ['+'] | ['-'] => .error .notADigit
  | '+' :: digits => readDigits bound .tooLarge digits 0
  | digits => readDigits bound .tooLarge digits 0

/-- An integer from `-(bound + 1)` to `bound`. -/
def readInt (bound : Nat) (s : String) : Except IntegerFault Int :=
  match s.toList with
  | [] => .error .empty
  | ['+'] | ['-'] => .error .notADigit
  | '+' :: digits => (readDigits bound .tooLarge digits 0).map Int.ofNat
  | '-' :: digits => (readDigits (bound + 1) .tooSmall digits 0).map fun n => -Int.ofNat n
  | digits => (readDigits bound .tooLarge digits 0).map Int.ofNat

def ofNat (n : Nat) : String :=
  String.ofList (Nat.toDigits 10 n)

def intChars (n : Int) : List Char :=
  if n < 0 then '-' :: Nat.toDigits 10 n.natAbs else Nat.toDigits 10 n.natAbs

def ofInt (n : Int) : String :=
  String.ofList (intChars n)

end Bourse.Text
