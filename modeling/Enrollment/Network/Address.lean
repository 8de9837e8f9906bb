import Enrollment.Codec.Hex

/-! # Network addresses

Reading and writing IPv4 and IPv6 addresses. An IPv4 number has no leading zero; an IPv6 address
may end in an IPv4 address and may leave out one run of zero groups. Written IPv6 addresses leave
out the first longest run of at least two zero groups, and mapped IPv4 addresses stay readable.
-/

namespace Enrollment.Network

structure V4 where
  a : UInt8
  b : UInt8
  c : UInt8
  d : UInt8
  deriving DecidableEq, Repr

structure V6 where
  groups : List UInt16
  length_eq : groups.length = 8 := by rfl
  deriving DecidableEq, Repr

inductive Address where
  | v4 (address : V4)
  | v6 (address : V6)
  deriving DecidableEq, Repr

def isDigit (c : Char) : Bool := c.isDigit

def digitsValue (radix : Nat) (ds : List Char) : Nat :=
  ds.foldl (fun n c => n * radix + (Hex.value? c).getD 0) 0

/-- A decimal number below 256 of at most three digits, without leading zeros. -/
def readByte (cs : List Char) : Option (UInt8 × List Char) :=
  let ds := cs.takeWhile Char.isDigit
  let n := digitsValue 10 ds
  if ds = [] ∨ 3 < ds.length ∨ 255 < n ∨ (ds.head? = some '0' ∧ 1 < ds.length) then none
  else some (n.toUInt8, cs.dropWhile Char.isDigit)

def isHexDigit (c : Char) : Bool := (Hex.value? c).isSome

/-- A hexadecimal number of at most four digits. -/
def readGroup (cs : List Char) : Option (UInt16 × List Char) :=
  let ds := cs.takeWhile isHexDigit
  if ds = [] ∨ 4 < ds.length then none
  else some ((digitsValue 16 ds).toUInt16, cs.dropWhile isHexDigit)

def readSeparator (separator : Char) : List Char → Option (List Char)
  | c :: rest => if c = separator then some rest else none
  | [] => none

def readV4 (cs : List Char) : Option (V4 × List Char) := do
  let (a, cs) ← readByte cs
  let (b, cs) ← readByte (← readSeparator '.' cs)
  let (c, cs) ← readByte (← readSeparator '.' cs)
  let (d, cs) ← readByte (← readSeparator '.' cs)
  return (⟨a, b, c, d⟩, cs)

def V4.groups (v : V4) : List UInt16 :=
  [v.a.toUInt16 * 256 + v.b.toUInt16, v.c.toUInt16 * 256 + v.d.toUInt16]

structure Groups where
  groups : List UInt16
  /-- Whether the last two groups were written as an IPv4 address. -/
  mixed : Bool
  rest : List Char

/-- Reads up to a number of groups with colons between them. -/
def readGroups : Bool → Nat → List Char → Groups
  | _, 0, cs => ⟨[], false, cs⟩
  | first, room + 1, cs =>
    let start := if first then some cs else readSeparator ':' cs
    let mixed := if 0 < room then start.bind readV4 else none
    match mixed with
    | some (v, rest) => ⟨v.groups, true, rest⟩
    | none =>
      match start.bind readGroup with
      | none => ⟨[], false, cs⟩
      | some (g, rest) =>
        let more := readGroups false room rest
        ⟨g :: more.groups, more.mixed, more.rest⟩

def V6.ofGroups? (groups : List UInt16) : Option V6 :=
  if h : groups.length = 8 then some ⟨groups, h⟩ else none

def readV6 (cs : List Char) : Option (V6 × List Char) := do
  let head := readGroups true 8 cs
  if head.groups.length = 8 then
    return (← V6.ofGroups? head.groups, head.rest)
  if head.mixed then none
  let cs ← readSeparator ':' head.rest
  let cs ← readSeparator ':' cs
  let tail := readGroups true (7 - head.groups.length) cs
  let gap := 8 - head.groups.length - tail.groups.length
  return (← V6.ofGroups? (head.groups ++ List.replicate gap 0 ++ tail.groups), tail.rest)

namespace Address

def parse? (s : String) : Option Address :=
  let v4 := (readV4 s.toList).map fun (v, rest) => (Address.v4 v, rest)
  let v6 := (readV6 s.toList).map fun (v, rest) => (Address.v6 v, rest)
  match v4.or v6 with
  | some (address, []) => some address
  | _ => none

end Address

def V4.print (v : V4) : String :=
  ".".intercalate ([v.a, v.b, v.c, v.d].map fun n => toString n.toNat)

def groupText (g : UInt16) : String := String.ofList (Nat.toDigits 16 g.toNat)

def groupsText (groups : List UInt16) : String := ":".intercalate (groups.map groupText)

/-- How many zero groups stand at the front. -/
def zeroRun (groups : List UInt16) : Nat := (groups.takeWhile (· == 0)).length

/-- Start and length of the first longest run of zero groups. -/
def longestRun : Nat → List UInt16 → Nat × Nat
  | start, [] => (start, 0)
  | start, g :: rest =>
    let here := zeroRun (g :: rest)
    let later := longestRun (start + 1) rest
    if later.2 ≤ here then (start, here) else later

/-- The groups with their first longest run of zeros left out, when it has two or more. -/
def compressed (groups : List UInt16) : String :=
  let (start, size) := longestRun 0 groups
  if 1 < size then
    groupsText (groups.take start) ++ "::" ++ groupsText (groups.drop (start + size))
  else groupsText groups

def V6.mapped? (v : V6) : Option V4 :=
  match v.groups with
  | [0, 0, 0, 0, 0, 0xFFFF, high, low] =>
    some ⟨(high / 256).toUInt8, (high % 256).toUInt8, (low / 256).toUInt8, (low % 256).toUInt8⟩
  | _ => none

def V6.print (v : V6) : String :=
  match v.mapped? with
  | some v4 => "::ffff:" ++ v4.print
  | none => compressed v.groups

def Address.print : Address → String
  | .v4 v => v.print
  | .v6 v => v.print

end Enrollment.Network
