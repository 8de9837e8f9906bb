import Enrollment.Codec.Der

/-! # Object identifiers

Names of algorithms and curves: numbers from the root of a tree, printed with dots between them.
Identifiers are told apart by the bytes that they are written in.
-/

namespace Enrollment

namespace ObjectId

def minSize : Nat := 3

def maxSize : Nat := 39

/-- Arcs in groups of seven bits. An arc has at most four bytes, or five when the last is below
sixteen, and is kept in 32 bits. -/
def readArcs : Nat → Nat → Bytes → Option (List Nat)
  | _, 0, [] => some []
  | _, _ + 1, [] => none
  | arc, count, b :: rest =>
    if 4 ≤ count ∧ 16 ≤ b then none
    else
      let arc := arc * 128 + b.toNat % 128
      if 0x80 ≤ b then readArcs arc (count + 1) rest
      else (readArcs 0 0 rest).map (arc % 0x100000000 :: ·)

/-- The numbers that are written in some bytes. The first two share a byte. -/
def arcs? : Bytes → Option (List Nat)
  | [] => none
  | first :: rest =>
    if rest.length + 1 < minSize ∨ maxSize < rest.length + 1 ∨ 120 ≤ first then none
    else (readArcs 0 0 rest).map fun arcs => first.toNat / 40 :: first.toNat % 40 :: arcs

end ObjectId

structure ObjectId where
  contents : Bytes
  arcs : List Nat
  reads : ObjectId.arcs? contents = some arcs
  deriving DecidableEq, Repr

namespace ObjectId

def print (oid : ObjectId) : String := ".".intercalate (oid.arcs.map toString)

def ofContents? (contents : Bytes) : Option ObjectId :=
  match reads : arcs? contents with
  | some arcs => some ⟨contents, arcs, reads⟩
  | none => none

def tag : UInt8 := 0x06

def reader : Der.Reader ObjectId := do
  match ofContents? (← Der.contents tag) with
  | some oid => return oid
  | none => failure

end ObjectId

end Enrollment
