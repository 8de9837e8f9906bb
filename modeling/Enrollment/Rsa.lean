import Enrollment.Natural
import Enrollment.Digest.Sha256

/-! # RSA keys

Two-prime keys, the conditions under which one is accepted, and signatures of padded digests. A
signature is only given out when raising it to the public exponent gives the padded digest back.
-/

namespace Enrollment.Rsa

structure PrivateKey where
  modulus : Nat
  publicExponent : Nat
  privateExponent : Nat
  firstPrime : Nat
  secondPrime : Nat
  deriving DecidableEq, Repr

def maxModulusBits : Nat := 4096

def maxPublicExponent : Nat := 0x1ffffffff

namespace PrivateKey

/-- Whether the exponents undo each other modulo a factor. -/
def fitsFactor (key : PrivateKey) (factor : Nat) : Bool :=
  1 < factor && key.publicExponent * key.privateExponent % (factor - 1) = 1

def isValid (key : PrivateKey) : Bool :=
  key.modulus < Nat.pow 2 maxModulusBits && key.modulus % 2 = 1 &&
    key.publicExponent < key.modulus && key.publicExponent % 2 = 1 &&
    2 ≤ key.publicExponent && key.publicExponent ≤ maxPublicExponent &&
    key.firstPrime * key.secondPrime = key.modulus &&
    key.fitsFactor key.firstPrime && key.fitsFactor key.secondPrime

/-- The width of the modulus in bytes. -/
def size (key : PrivateKey) : Nat := BigEndian.width key.modulus

end PrivateKey

/-- What stands before a SHA-256 digest in a signed block: the name of the digest in DER. -/
def digestHeader : Bytes :=
  [0x30, 0x31, 0x30, 0x0d, 0x06, 0x09, 0x60, 0x86, 0x48, 0x01, 0x65, 0x03, 0x04, 0x02, 0x01,
    0x05, 0x00, 0x04, 0x20]

/-- The fewest filling bytes of a block. -/
def minFilling : Nat := 8

/-- The block that is signed for a message, of the given width; nothing if it does not fit. -/
def block? (size : Nat) (message : Bytes) : Option Bytes :=
  let digest := digestHeader ++ Digest.sha256.digest message
  if size < digest.length + 3 + minFilling then none
  else some (0 :: 1 :: List.replicate (size - digest.length - 3) 0xFF ++ 0 :: digest)

def PrivateKey.sign (key : PrivateKey) (message : Bytes) : Option Bytes :=
  match block? key.size message with
  | none => none
  | some block =>
    let number := BigEndian.read block
    let signature := Modular.pow key.modulus number key.privateExponent
    if Modular.pow key.modulus signature key.publicExponent = number then
      some (BigEndian.write key.size signature)
    else none

end Enrollment.Rsa
