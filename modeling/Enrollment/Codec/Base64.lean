import Enrollment.Text.Utf8

/-! # Base64

The standard alphabet with padding and the URL alphabet without, and a reader that says which
symbol is at fault. Only canonical text is read: unused bits of the last symbol are zero.
-/

namespace Enrollment

namespace Base64

inductive Alphabet where
  | standard
  | url
  deriving DecidableEq, Repr

inductive DecodeError where
  | symbol (byte : UInt8) (offset : Nat)
  | length (size : Nat)
  | lastSymbol (byte : UInt8) (offset : Nat)
  | padding
  deriving DecidableEq, Repr

def DecodeError.message : DecodeError → String
  | .symbol byte offset => s!"Invalid symbol {byte.toNat}, offset {offset}."
  | .length size => s!"Invalid input length: {size}"
  | .lastSymbol byte offset => s!"Invalid last symbol {byte.toNat}, offset {offset}."
  | .padding => "Invalid padding"

def Alphabet.byte (alphabet : Alphabet) (n : Nat) : UInt8 :=
  if n < 26 then (65 + n).toUInt8
  else if n < 52 then (71 + n).toUInt8
  else if n < 62 then (n - 4).toUInt8
  else if n = 62 then (match alphabet with | .standard => 43 | .url => 45)
  else (match alphabet with | .standard => 47 | .url => 95)

def Alphabet.value? (alphabet : Alphabet) (b : UInt8) : Option Nat :=
  let n := b.toNat
  if 65 ≤ n ∧ n ≤ 90 then some (n - 65)
  else if 97 ≤ n ∧ n ≤ 122 then some (n - 71)
  else if 48 ≤ n ∧ n ≤ 57 then some (n + 4)
  else match alphabet with
    | .standard => if n = 43 then some 62 else if n = 47 then some 63 else none
    | .url => if n = 45 then some 62 else if n = 95 then some 63 else none

def pad : UInt8 := 61

/-- Whether text of this alphabet is padded to a multiple of four symbols. -/
def Alphabet.padded : Alphabet → Bool
  | .standard => true
  | .url => false

def encodeBytes (alphabet : Alphabet) : Bytes → Bytes
  | [] => []
  | [a] =>
    [alphabet.byte (a.toNat / 4), alphabet.byte (a.toNat % 4 * 16)] ++
      if alphabet.padded then [pad, pad] else []
  | [a, b] =>
    [alphabet.byte (a.toNat / 4), alphabet.byte (a.toNat % 4 * 16 + b.toNat / 16),
      alphabet.byte (b.toNat % 16 * 4)] ++
      if alphabet.padded then [pad] else []
  | a :: b :: c :: rest =>
    alphabet.byte (a.toNat / 4) :: alphabet.byte (a.toNat % 4 * 16 + b.toNat / 16) ::
      alphabet.byte (b.toNat % 16 * 4 + c.toNat / 64) :: alphabet.byte (c.toNat % 64) ::
      encodeBytes alphabet rest

def encode (alphabet : Alphabet) (bytes : Bytes) : String :=
  String.ofList ((encodeBytes alphabet bytes).map fun b => Char.ofNat b.toNat)

def encodeUrl (bytes : Bytes) : String := encode .url bytes

/-- The values of the symbols of a group, or the first byte outside the alphabet. -/
def values (alphabet : Alphabet) (offset : Nat) : Bytes → Except DecodeError (List Nat)
  | [] => .ok []
  | b :: rest =>
    match alphabet.value? b with
    | none => .error (.symbol b offset)
    | some v => (values alphabet (offset + 1) rest).map (v :: ·)

def group (a b c d : Nat) : Bytes :=
  [(a * 4 + b / 16).toUInt8, (b % 16 * 16 + c / 4).toUInt8, (c % 4 * 64 + d).toUInt8]

/-- The symbols of the last group before its padding. Padding may only stand after two symbols
and may only be followed by padding. -/
def lastSymbols (alphabet : Alphabet) (start : Nat) :
    Nat → List Nat → Bytes → Except DecodeError (List Nat × Nat)
  | pads, symbols, [] => .ok (symbols.reverse, pads)
  | pads, symbols, b :: rest =>
    let place := symbols.length + pads
    if b = pad then
      if place < 2 then .error (.symbol b (start + place))
      else lastSymbols alphabet start (pads + 1) symbols rest
    else if 0 < pads then .error (.symbol pad (start + symbols.length))
    else match alphabet.value? b with
      | none => .error (.symbol b (start + place))
      | some v => lastSymbols alphabet start pads (v :: symbols) rest

def lastGroup (alphabet : Alphabet) (start : Nat) (bytes : Bytes) : Except DecodeError Bytes := do
  let (symbols, pads) ← lastSymbols alphabet start 0 [] bytes
  if bytes.isEmpty then return []
  if symbols.length < 2 then throw (.length (start + symbols.length))
  if alphabet.padded then
    if (pads + symbols.length) % 4 ≠ 0 then throw .padding
  else if 0 < pads then throw .padding
  let last := bytes.getD (symbols.length - 1) 0
  match symbols with
  | [a, b] =>
    if b % 16 ≠ 0 then throw (.lastSymbol last (start + 1))
    return [(a * 4 + b / 16).toUInt8]
  | [a, b, c] =>
    if c % 4 ≠ 0 then throw (.lastSymbol last (start + 2))
    return [(a * 4 + b / 16).toUInt8, (b % 16 * 16 + c / 4).toUInt8]
  | [a, b, c, d] => return group a b c d
  | _ => throw (.length (start + symbols.length))

def decodeFrom (alphabet : Alphabet) (start : Nat) : Bytes → Except DecodeError Bytes
  | a :: b :: c :: d :: e :: rest => do
    match ← values alphabet start [a, b, c, d] with
    | [v, w, x, y] => return group v w x y ++ (← decodeFrom alphabet (start + 4) (e :: rest))
    | _ => throw (.length start)
  | bytes => lastGroup alphabet start bytes

/-- A single symbol over a whole number of groups is reported first when it is no symbol at all,
such as a trailing line feed. -/
def strayEnd? (alphabet : Alphabet) (bytes : Bytes) : Option DecodeError :=
  if bytes.length % 4 = 1 then
    match bytes.getLast? with
    | some b =>
      if b ≠ pad ∧ alphabet.value? b = none then some (.symbol b (bytes.length - 1)) else none
    | none => none
  else none

def decode (alphabet : Alphabet) (bytes : Bytes) : Except DecodeError Bytes :=
  match strayEnd? alphabet bytes with
  | some fault => .error fault
  | none => decodeFrom alphabet 0 bytes

def decodeUrl (s : String) : Except DecodeError Bytes := decode .url (Utf8.encode s)

end Base64

end Enrollment
