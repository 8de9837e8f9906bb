import Enrollment.Natural

/-! # Elliptic curves

The curves `y² = x³ - 3x + b` of prime order that account keys use. Points are kept with a common
denominator (`x / z²`, `y / z³`), so that only the way back to plain coordinates divides.
-/

namespace Enrollment

inductive Curve where
  | p256
  | p384
  deriving DecidableEq, Repr

namespace Curve

def name : Curve → String
  | p256 => "P-256"
  | p384 => "P-384"

/-- The width of a coordinate and of a scalar in bytes. -/
def size : Curve → Nat
  | p256 => 32
  | p384 => 48

def prime : Curve → Nat
  | p256 => 0xffffffff00000001000000000000000000000000ffffffffffffffffffffffff
  | p384 =>
    0xfffffffffffffffffffffffffffffffffffffffffffffffffffffffffffffffeffffffff0000000000000000ffffffff

/-- The order of the group of points. -/
def order : Curve → Nat
  | p256 => 0xffffffff00000000ffffffffffffffffbce6faada7179e84f3b9cac2fc632551
  | p384 =>
    0xffffffffffffffffffffffffffffffffffffffffffffffffc7634d81f4372ddf581a0db248b0a77aecec196accc52973

structure Affine where
  x : Nat
  y : Nat
  deriving DecidableEq, Repr

def generator : Curve → Affine
  | p256 => ⟨0x6b17d1f2e12c4247f8bce6e563a440f277037d812deb33a0f4a13945d898c296,
    0x4fe342e2fe1a7f9b8ee7eb4a7c0f9e162bce33576b315ececbb6406837bf51f5⟩
  | p384 => ⟨
    0xaa87ca22be8b05378eb1c71ef320ad746e1d3b628ba79b9859f741e082542a385502f25dbf55296c3a545e3872760ab7,
    0x3617de4a96262c6f5d9e98bf9292dc29f8f41dbd289a147ce9da3113b5f0b8c00a60b1ce1d7e819d7a431d7c90ea0e5f⟩

/-- A point with a common denominator; zero is the denominator of the neutral point. -/
structure Point where
  x : Nat
  y : Nat
  z : Nat
  deriving DecidableEq, Repr

def neutral : Point := ⟨1, 1, 0⟩

def double (c : Curve) (p : Point) : Point :=
  let m := c.prime
  let delta := p.z * p.z % m
  let gamma := p.y * p.y % m
  let beta := p.x * gamma % m
  let alpha := 3 * Modular.sub m p.x delta * (p.x + delta) % m
  let x := Modular.sub m (alpha * alpha) (8 * beta)
  let z := Modular.sub m ((p.y + p.z) * (p.y + p.z)) (gamma + delta)
  let y := Modular.sub m (alpha * Modular.sub m (4 * beta) x) (8 * gamma * gamma)
  ⟨x, y, z⟩

def add (c : Curve) (p : Point) (q : Affine) : Point :=
  if p.z = 0 then ⟨q.x, q.y, 1⟩
  else
    let m := c.prime
    let square := p.z * p.z % m
    let h := Modular.sub m (q.x * square) p.x
    let r := Modular.sub m (q.y * square * p.z) p.y
    if h = 0 then
      if r = 0 then c.double p else neutral
    else
      let h2 := h * h % m
      let h3 := h * h2 % m
      let v := p.x * h2 % m
      let x := Modular.sub m (r * r) (h3 + 2 * v)
      let y := Modular.sub m (r * Modular.sub m v x) (p.y * h3)
      ⟨x, y, p.z * h % m⟩

def toAffine (c : Curve) (p : Point) : Affine :=
  let inverse := Modular.inverse c.prime p.z
  let square := inverse * inverse % c.prime
  ⟨p.x * square % c.prime, p.y * square * inverse % c.prime⟩

/-- The generator added to itself as often as the scalar says. -/
def multiple (c : Curve) (scalar : Nat) : Affine :=
  c.toAffine <| (Modular.binaryDigits scalar (8 * c.size)).foldl
    (fun p digit => if digit then c.add (c.double p) c.generator else c.double p) neutral

/-- The uncompressed form of a point. -/
def Affine.encode (c : Curve) (p : Affine) : Bytes :=
  0x04 :: BigEndian.write c.size p.x ++ BigEndian.write c.size p.y

def Affine.encodeCompressed (c : Curve) (p : Affine) : Bytes :=
  (if p.y % 2 = 0 then 0x02 else 0x03) :: BigEndian.write c.size p.x

/-- Scalars that are secret keys. -/
def isScalar (c : Curve) (n : Nat) : Bool := 0 < n && n < c.order

end Curve

end Enrollment
