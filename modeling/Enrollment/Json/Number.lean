import Enrollment.Json.Token
import Enrollment.Decimal.Shortest

/-! # JSON numbers

A number without fraction and exponent is an integer when it fits sixty-four bits; every other one
is a binary64 number, kept as its bits.
-/

namespace Enrollment.Json

inductive Number where
  | int (n : Int)
  | real (bits : UInt64)
  deriving DecidableEq, Repr

def maxWord : Nat := 0xffffffffffffffff

/-- Appends digits to a significand as long as it stays in sixty-four bits; the result counts the
digits taken and those left. -/
def extend (significand : Nat) : List Nat → Nat × Nat × Nat
  | [] => (significand, 0, 0)
  | d :: ds =>
    let next := significand * 10 + d
    if maxWord < next then (significand, 0, (d :: ds).length)
    else
      let (value, taken, left) := extend next ds
      (value, taken + 1, left)

def powerOfTen (n : Nat) : Float := Float.ofScientific 1 false n

/-- Scales by a power of ten in steps of binary64 arithmetic; `none` when the result is infinite. -/
def scale (f : Float) (exponent : Int) : Option Float :=
  if exponent.natAbs ≤ 308 then
    if 0 ≤ exponent then
      let g := f * powerOfTen exponent.natAbs
      if g.isInf then none else some g
    else some (f / powerOfTen exponent.natAbs)
  else if f == 0 then some f
  else if 0 ≤ exponent then none
  else scale (f / powerOfTen 308) (exponent + 308)
termination_by exponent.natAbs
decreasing_by omega

/-- The exponent as written, or `none` when it leaves thirty-two bits. -/
def exponent? (ds : List Nat) : Option Nat :=
  ds.foldlM (fun e d => if 0x7fffffff < e * 10 + d then none else some (e * 10 + d)) 0

def signed (negative : Bool) (f : Float) : Float := if negative then -f else f

/-- The value of a numeral, or `none` when it is too large. -/
def Numeral.value? (n : Numeral) : Option Number :=
  let (whole, _, left) := extend 0 n.whole
  if left = 0 ∧ n.fraction.isEmpty ∧ n.exponent.isNone ∧
      (¬n.negative ∨ (0 < whole ∧ whole ≤ 0x8000000000000000)) then
    some (.int (if n.negative then -(whole : Int) else whole))
  else
    let (significand, taken, _) := extend whole n.fraction
    let start : Int := (left : Int) - taken
    let real (exponent : Int) : Option Number :=
      (scale significand.toUInt64.toFloat exponent).map fun f =>
        .real (signed n.negative f).toBits
    match n.exponent with
    | none => real start
    | some (down, ds) =>
      match exponent? ds with
      | some e => real (if down then max (start - e) (-0x80000000) else min (start + e) 0x7fffffff)
      | none =>
        if significand ≠ 0 ∧ ¬down then none
        else some (.real (signed n.negative 0).toBits)

/-- A binary64 number by its bits, sign aside: zero, or a positive binary fraction. -/
def binary? (bits : UInt64) : Option Decimal.Binary :=
  let n : Nat := bits.toNat % 0x8000000000000000
  let field : Nat := n / 0x10000000000000
  let part : Nat := n % 0x10000000000000
  if field = 0 then
    if part = 0 then none else some ⟨part, -1074, false⟩
  else some ⟨0x10000000000000 + part, (field : Int) - 1075, part = 0 && 1 < field⟩

/-- Positional below ten to the sixteenth and down to five zeros after the point, otherwise with
an exponent; a point is always shown unless an exponent is. -/
def realText (bits : UInt64) : List Char :=
  let sign := if 0x8000000000000000 ≤ bits.toNat then ['-'] else []
  match binary? bits with
  | none => sign ++ ['0', '.', '0']
  | some b =>
    let d := b.shortest
    let ds := (Nat.toDigits 10 d.digits)
    let point := (ds.length : Int) + d.exponent
    sign ++
      if 0 ≤ d.exponent ∧ point ≤ 16 then
        ds ++ List.replicate d.exponent.toNat '0' ++ ['.', '0']
      else if 0 < point ∧ point ≤ 16 then
        ds.take point.toNat ++ '.' :: ds.drop point.toNat
      else if -5 < point ∧ point ≤ 0 then
        ['0', '.'] ++ List.replicate (-point).toNat '0' ++ ds
      else
        let exponent := (toString (point - 1)).toList
        match ds with
        | [d] => d :: 'e' :: exponent
        | d :: rest => d :: '.' :: rest ++ 'e' :: exponent
        | [] => exponent

def Number.text : Number → List Char
  | .int n => (toString n).toList
  | .real bits => realText bits

end Enrollment.Json
