import Enrollment.Codec.Hex

/-! # Percent encoding

Bytes outside ASCII, controls, and the characters that a part of a URL does not admit are written
as a percent sign and two upper-case digits.
-/

namespace Enrollment.Percent

/-- The characters beyond controls that are escaped in each part of a URL. -/
inductive Part where
  | opaqueText
  | fragment
  | query
  | specialQuery
  | path
  | userinfo
  deriving DecidableEq, Repr

def Part.escaped : Part → List Char
  | .opaqueText => []
  | .fragment => [' ', '"', '<', '>', '`']
  | .query => [' ', '"', '#', '<', '>']
  | .specialQuery => [' ', '"', '#', '<', '>', '\'']
  | .path => [' ', '"', '<', '>', '`', '#', '?', '\x7b', '\x7d']
  | .userinfo => [' ', '"', '<', '>', '`', '#', '?', '\x7b', '\x7d', '/', ':', ';', '=', '@', '[',
      '\\', ']', '^', '|']

def Part.escapes (part : Part) (c : Char) : Bool :=
  c.toNat < 0x20 || 0x7F ≤ c.toNat || part.escaped.contains c

def upperDigit (n : Nat) : Char :=
  if n < 10 then Char.ofNat (48 + n) else Char.ofNat (55 + n)

def escapeByte (b : UInt8) : List Char :=
  ['%', upperDigit (b.toNat / 16), upperDigit (b.toNat % 16)]

def encodeChar (part : Part) (c : Char) : List Char :=
  if part.escapes c then (Utf8.encodeChar c).flatMap escapeByte else [c]

def encode (part : Part) (cs : List Char) : String :=
  String.ofList (cs.flatMap (encodeChar part))

def escaped? (high low : UInt8) : Option UInt8 := do
  let h ← Hex.value? (Char.ofNat high.toNat)
  let l ← Hex.value? (Char.ofNat low.toNat)
  return (16 * h + l).toUInt8

/-- Resolves escapes; a percent sign that starts none stays. -/
def decode : Bytes → Bytes
  | b :: high :: low :: rest =>
    if b = 0x25 then
      match escaped? high low with
      | some c => c :: decode rest
      | none => b :: decode (high :: low :: rest)
    else b :: decode (high :: low :: rest)
  | bytes => bytes

end Enrollment.Percent
