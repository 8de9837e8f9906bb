import Enrollment.Natural

/-! # DER

Distinguished encoding of nested elements. Every element has one encoding only, and readers give
nothing for any other: lengths and numbers are shortest, and no byte is left over in an element.
-/

namespace Enrollment.Der

/-- A reader takes its bytes from the front of the input. -/
abbrev Reader := StateT Bytes Option

def byte : Reader UInt8 := fun
  | [] => none
  | b :: rest => some (b, rest)

def take (count : Nat) : Reader Bytes := fun bytes =>
  if bytes.length < count then none else some (bytes.splitAt count)

def atEnd : Reader Bool := fun bytes => some (bytes.isEmpty, bytes)

/-- Runs a reader on all of the given bytes. -/
def Reader.all {α : Type} (reader : Reader α) (bytes : Bytes) : Option α :=
  match reader bytes with
  | some (a, []) => some a
  | _ => none

/-- Runs a reader on the contents of an element. -/
def within {α : Type} (reader : Reader α) (contents : Bytes) : Reader α :=
  fun bytes => (reader.all contents).map (·, bytes)

def check (condition : Bool) : Reader Unit := if condition then pure () else failure

def universalTags : List UInt8 :=
  [0x01, 0x02, 0x03, 0x04, 0x05, 0x06, 0x09, 0x0A, 0x0C, 0x12, 0x13, 0x14, 0x15, 0x16, 0x17, 0x18,
    0x1A, 0x1B, 0x1E, 0x30, 0x31]

/-- Tags of one byte: the known universal ones and those of the other three classes. -/
def isTag (tag : UInt8) : Bool :=
  if tag < 0x40 then universalTags.contains tag else tag.toNat % 32 ≠ 31

def isConstructed (tag : UInt8) : Bool := tag.toNat / 32 % 2 = 1

/-- The number of a tag of the context's own class. -/
def contextNumber? (tag : UInt8) : Option Nat :=
  if 0x80 ≤ tag && tag < 0xC0 then some (tag.toNat % 32) else none

def maxLength : Nat := 0xFFFFFFF

def length : Reader Nat := do
  let first ← byte
  if first < 0x80 then return first.toNat
  let size := first.toNat - 0x80
  check (1 ≤ size && size ≤ 4)
  let n := BigEndian.read (← take size)
  check (0x80 ≤ n && BigEndian.width n = size && n ≤ maxLength)
  return n

structure Element where
  tag : UInt8
  contents : Bytes
  deriving DecidableEq, Repr

def element : Reader Element := do
  let tag ← byte
  check (isTag tag)
  return ⟨tag, ← take (← length)⟩

/-- The contents of an element that has to have the given tag. -/
def contents (tag : UInt8) : Reader Bytes := do
  let e ← element
  check (e.tag = tag)
  return e.contents

def optionalElement : Reader (Option Element) := do
  if ← atEnd then return none
  return some (← element)

def sequence {α : Type} (reader : Reader α) : Reader α := do within reader (← contents 0x30)

def octets : Reader Bytes := contents 0x04

/-- Bits in whole bytes. -/
def wholeBits : Reader Bytes := do
  let unused ← byte
  check (unused = 0)
  fun rest => some (rest, [])

def bits : Reader Bytes := do within wholeBits (← contents 0x03)

/-- A number that is not negative. -/
def natural : Reader Nat := do
  let bytes ← contents 0x02
  match bytes with
  | [] => failure
  | [b] => check (b < 0x80)
  | a :: b :: _ => check (a < 0x80 && (a ≠ 0 || 0x80 ≤ b))
  return BigEndian.read bytes

/-- The field of a context number, among the fields in the order of their numbers. Fields with a
lower number are passed over. -/
def contextField {α : Type} (number : Nat) (read : Element → Reader α) (fields : Nat) :
    Reader (Option α) := fun bytes =>
  match fields, bytes with
  | _, [] => some (none, [])
  | 0, _ => none
  | fields + 1, tag :: _ =>
    if !isTag tag then none
    else match contextNumber? tag with
      | none => some (none, bytes)
      | some n =>
        if number < n then some (none, bytes)
        else (element bytes).bind fun (e, rest) =>
          if n = number then (read e rest).map fun (a, rest) => (some a, rest)
          else contextField number read fields rest

/-- A field that stands in place of an element: its tag replaces the tag of that element. -/
def implicitField {α : Type} (number : Nat) (reader : Reader α) : Reader (Option α) :=
  fun bytes => contextField number
    (fun e => do
      check (!isConstructed e.tag)
      within reader e.contents)
    (bytes.length + 1) bytes

/-- A field that holds one element. -/
def explicitField {α : Type} (number : Nat) (reader : Reader α) : Reader (Option α) :=
  fun bytes => contextField number
    (fun e => do
      check (isConstructed e.tag)
      within reader e.contents)
    (bytes.length + 1) bytes

/-- A field of any number that holds one element of any kind. -/
def anyField : Reader Unit := do
  let e ← element
  check ((contextNumber? e.tag).isSome && isConstructed e.tag)
  let _ ← within element e.contents

/-- Nothing but fields of any kind up to the end. -/
def anyFields (fields : Nat) : Reader Unit := fun bytes =>
  match fields, bytes with
  | _, [] => some ((), [])
  | 0, _ => none
  | fields + 1, bytes => (anyField bytes).bind fun (_, rest) => anyFields fields rest

def remainingFields : Reader Unit := fun bytes => anyFields bytes.length bytes

end Enrollment.Der
