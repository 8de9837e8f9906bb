/-! # Decimal integers of bounded size

The digits are read from the left, and the first of them that is no digit or leads out of the range
decides what is wrong with the text. A plus sign may lead; a minus sign only where negative numbers
are in the range.
-/

namespace Enrollment.Decimal

inductive IntegerError where
  | empty
  | invalidDigit
  | tooLarge
  | tooSmall
  deriving DecidableEq, Repr

def IntegerError.message : IntegerError → String
  | .empty => "cannot parse integer from empty string"
  | .invalidDigit => "invalid digit found in string"
  | .tooLarge => "number too large to fit in target type"
  | .tooSmall => "number too small to fit in target type"

/-- Reads digits after a number that is already read, with an error for passing the limit. -/
def readDigits (limit : Nat) (beyond : IntegerError) : Nat → List Char → Except IntegerError Nat
  | n, [] => .ok n
  | n, c :: rest =>
    if c.isDigit then
      let next := n * 10 + (c.toNat - '0'.toNat)
      if limit < next then .error beyond else readDigits limit beyond next rest
    else .error .invalidDigit

def readMagnitude (limit : Nat) (beyond : IntegerError) (digits : List Char) :
    Except IntegerError Nat :=
  if digits = [] then .error .invalidDigit else readDigits limit beyond 0 digits

/-- A number from zero to the limit. -/
def readNat (limit : Nat) (text : String) : Except IntegerError Nat :=
  match text.toList with
  | [] => .error .empty
  | '+' :: digits => readMagnitude limit .tooLarge digits
  | digits => readMagnitude limit .tooLarge digits

/-- A number in two's complement of the given count of bits. -/
def readInt (bits : Nat) (text : String) : Except IntegerError Int :=
  let half := Nat.pow 2 (bits - 1)
  match text.toList with
  | [] => .error .empty
  | '-' :: digits => (readMagnitude half .tooSmall digits).map fun (n : Nat) => -(n : Int)
  | '+' :: digits => (readMagnitude (half - 1) .tooLarge digits).map fun (n : Nat) => (n : Int)
  | digits => (readMagnitude (half - 1) .tooLarge digits).map fun (n : Nat) => (n : Int)

end Enrollment.Decimal
