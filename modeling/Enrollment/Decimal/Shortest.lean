/-! # Shortest decimals

The shortest decimal that reads back as a given binary fraction, and of several the nearest. All
arithmetic is exact: a binary64 number is `mantissa * 2 ^ exponent`, and the decimals that round
to it form an interval whose ends belong to it when the mantissa is even.
-/

namespace Enrollment.Decimal

/-- A positive binary fraction `mantissa * 2 ^ exponent`; `narrow` says that the next number below
is only half as far as the next one above. -/
structure Binary where
  mantissa : Nat
  exponent : Int
  narrow : Bool
  deriving DecidableEq, Repr

/-- The decimal `digits * 10 ^ exponent`. -/
structure Scientific where
  digits : Nat
  exponent : Int
  deriving DecidableEq, Repr

/-- Numerator and denominator of `n * 2 ^ e / 10 ^ k`. -/
def scaled (n : Nat) (e k : Int) : Nat × Nat :=
  (n * Nat.pow 2 e.toNat * Nat.pow 10 (-k).toNat, Nat.pow 2 (-e).toNat * Nat.pow 10 k.toNat)

/-- Both ends of the interval and the number itself, four units to a last place. -/
def Binary.low (b : Binary) : Nat := 4 * b.mantissa - (if b.narrow then 1 else 2)

def Binary.high (b : Binary) : Nat := 4 * b.mantissa + 2

/-- Whether `d * 10 ^ k` reads back as the number. -/
def Binary.covers (b : Binary) (k : Int) (d : Nat) : Bool :=
  let (low, den) := scaled b.low (b.exponent - 2) k
  let (high, _) := scaled b.high (b.exponent - 2) k
  if b.mantissa % 2 = 0 then low ≤ d * den && d * den ≤ high
  else low < d * den && d * den < high

/-- The nearest of the two neighbours of the number on the grid `10 ^ k` that read back. -/
def Binary.onGrid? (b : Binary) (k : Int) : Option Nat :=
  let (num, den) := scaled (4 * b.mantissa) (b.exponent - 2) k
  let below := num / den
  let rest := num % den
  let nearBelow := 2 * rest < den || (2 * rest = den && below % 2 = 0)
  match b.covers k below, b.covers k (below + 1) with
  | true, true => some (if nearBelow then below else below + 1)
  | true, false => some below
  | false, true => some (below + 1)
  | false, false => none

/-- How often ten divides into a number below one before it reaches one. -/
def leadingZeros (num den : Nat) : Nat → Nat
  | 0 => 0
  | fuel + 1 => if den ≤ num then 0 else leadingZeros (num * 10) den fuel + 1

/-- The exponent of the leading decimal digit. -/
def Binary.scale (b : Binary) : Int :=
  let (num, den) := scaled (4 * b.mantissa) (b.exponent - 2) 0
  if den ≤ num then ((Nat.toDigits 10 (num / den)).length : Int) - 1
  else -(leadingZeros num den 400 : Int)

def stripZeros (digits : Nat) (exponent : Int) : Nat → Scientific
  | 0 => ⟨digits, exponent⟩
  | fuel + 1 =>
    if digits % 10 = 0 ∧ digits ≠ 0 then stripZeros (digits / 10) (exponent + 1) fuel
    else ⟨digits, exponent⟩

def Binary.shortest (b : Binary) : Scientific :=
  let top := b.scale
  let hit := (List.range 17).findSome? fun (i : Nat) =>
    let k := top - (i : Int)
    (b.onGrid? k).map fun d => (d, k)
  match hit with
  | some (d, k) => stripZeros d k 20
  | none => ⟨b.mantissa, b.exponent⟩

end Enrollment.Decimal
