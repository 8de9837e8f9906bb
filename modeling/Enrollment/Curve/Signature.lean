import Enrollment.Curve.Basic
import Enrollment.Digest.Sha256
import Enrollment.Digest.Sha384

/-! # Signatures on elliptic curves

Each curve goes with the digest of its own width. The secret number of a signature is derived from
the key and the digest alone, so that equal messages have equal signatures.
-/

namespace Enrollment.Curve

def hash : Curve → Digest.Hash
  | p256 => Digest.sha256
  | p384 => Digest.sha384

/-- The state that secret numbers are drawn from. -/
structure NonceState where
  key : Bytes
  value : Bytes

namespace NonceState

def init (c : Curve) (scalar digest : Nat) : NonceState :=
  let seed := BigEndian.write c.size scalar ++ BigEndian.write c.size digest
  let value := List.replicate c.size (1 : UInt8)
  let key := c.hash.keyed (List.replicate c.size 0) (value ++ 0 :: seed)
  let value := c.hash.keyed key value
  let key := c.hash.keyed key (value ++ 1 :: seed)
  ⟨key, c.hash.keyed key value⟩

/-- The number to try and the state for the case that it is not fit. -/
def next (c : Curve) (s : NonceState) : Nat × NonceState :=
  let value := c.hash.keyed s.key s.value
  let key := c.hash.keyed s.key (value ++ [0])
  (BigEndian.read value, ⟨key, c.hash.keyed key value⟩)

/-- The first fit number among the given count of tries. -/
def draw (c : Curve) : Nat → NonceState → Option Nat
  | 0, _ => none
  | tries + 1, s =>
    let (number, s) := s.next c
    if c.isScalar number then some number else draw c tries s

end NonceState

/-- More tries than it can ever take: a try fails with a chance below two to the minus thirty. -/
def nonceTries : Nat := 64

/-- The two halves of a signature side by side, or nothing when one of them is zero. -/
def sign (c : Curve) (scalar : Nat) (message : Bytes) : Option Bytes :=
  let digest := BigEndian.read (c.hash.digest message) % c.order
  match NonceState.draw c nonceTries (NonceState.init c scalar digest) with
  | none => none
  | some k =>
    let r := (c.multiple k).x % c.order
    let s := Modular.inverse c.order k * (digest + r * scalar) % c.order
    if r = 0 ∨ s = 0 then none
    else some (BigEndian.write c.size r ++ BigEndian.write c.size s)

end Enrollment.Curve
