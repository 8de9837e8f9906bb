import Enrollment.Text.Utf8

/-! # Natural numbers

What digests and keys compute with: numbers as byte strings, and arithmetic modulo a number.
-/

namespace Enrollment

/-! Numbers as byte strings, the most significant byte first: in a given width, where higher digits
are lost, or in the fewest bytes -/

namespace BigEndian

def read (bytes : Bytes) : Nat := bytes.foldl (fun n b => n * 256 + b.toNat) 0

def write : Nat → Nat → Bytes
  | 0, _ => []
  | width + 1, n => write width (n / 256) ++ [(n % 256).toUInt8]

/-- The number of bytes of the shortest form; zero takes one. -/
def width (n : Nat) : Nat := n.log2 / 8 + 1

def writeMinimal (n : Nat) : Bytes := write (width n) n

end BigEndian

namespace Modular

def sub (m a b : Nat) : Nat := (a + (m - b % m)) % m

/-- The lowest `count` binary digits of a number, the highest of them first. -/
def binaryDigits (n : Nat) : Nat → List Bool
  | 0 => []
  | count + 1 => n.testBit count :: binaryDigits n count

def pow (m base exponent : Nat) : Nat :=
  (binaryDigits exponent (exponent.log2 + 1)).foldl
    (fun power digit =>
      let square := power * power % m
      if digit then square * base % m else square)
    (1 % m)

/-- The inverse modulo a prime, which is the power with the exponent `prime - 2`. -/
def inverse (prime a : Nat) : Nat := pow prime (a % prime) (prime - 2)

end Modular

end Enrollment
