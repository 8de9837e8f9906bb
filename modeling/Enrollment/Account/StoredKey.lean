import Enrollment.Codec.ObjectId
import Enrollment.Codec.Pem
import Enrollment.Curve.Basic
import Enrollment.Rsa

/-! # Stored secret keys

The encoding in which a secret key of any algorithm is stored: the algorithm with its parameters,
and the key itself in an encoding of its own. RSA keys and keys on the two known curves are read.
-/

namespace Enrollment

/-- A secret key that an account can sign with. -/
inductive SecretKey where
  | rsa (key : Rsa.PrivateKey) (valid : key.isValid = true)
  | curve (c : Curve) (scalar : Nat) (valid : c.isScalar scalar = true)
  deriving DecidableEq, Repr

inductive KeyError where
  | scalarRange
  | pem (cause : PemError)
  | pemTag (tag : String)
  | encoding
  | algorithm (oid : ObjectId)
  | curve (oid : Option ObjectId)
  deriving DecidableEq, Repr

def KeyError.message : KeyError → String
  | .scalarRange => "ACME ECDSA anahtarı geçersiz: crypto error"
  | .pem cause => "hesap anahtarı PEM olarak ayrıştırılamadı: " ++ cause.message
  | .pemTag tag => "beklenen PRIVATE KEY PEM etiketi, bulundu " ++ tag
  | .encoding => "PKCS#8 hesap anahtarı çözümlenemedi: <pkcs8>"
  | .algorithm oid => "desteklenmeyen hesap anahtarı algoritması: " ++ oid.print
  | .curve oid =>
    "desteklenmeyen eliptik eğri: " ++ match oid with
      | some oid => oid.print
      | none => "<eksik>"

/-- A stored key before its own encoding is read. -/
structure StoredKey where
  algorithm : ObjectId
  parameters : Option Der.Element
  key : Bytes
  deriving DecidableEq, Repr

namespace StoredKey

def rsaAlgorithm : ObjectId :=
  ⟨[0x2A, 0x86, 0x48, 0x86, 0xF7, 0x0D, 0x01, 0x01, 0x01], [1, 2, 840, 113549, 1, 1, 1], by decide⟩

def curveAlgorithm : ObjectId :=
  ⟨[0x2A, 0x86, 0x48, 0xCE, 0x3D, 0x02, 0x01], [1, 2, 840, 10045, 2, 1], by decide⟩

def curveId : Curve → ObjectId
  | .p256 =>
    ⟨[0x2A, 0x86, 0x48, 0xCE, 0x3D, 0x03, 0x01, 0x07], [1, 2, 840, 10045, 3, 1, 7], by decide⟩
  | .p384 => ⟨[0x2B, 0x81, 0x04, 0x00, 0x22], [1, 3, 132, 0, 34], by decide⟩

def curves : List (ObjectId × Curve) := [(curveId .p256, .p256), (curveId .p384, .p384)]

def algorithmReader : Der.Reader (ObjectId × Option Der.Element) := do
  let oid ← ObjectId.reader
  return (oid, ← Der.optionalElement)

/-- Version one carries a public key beside the secret one, version zero does not. -/
def reader : Der.Reader StoredKey := Der.sequence do
  let version ← Der.natural
  Der.check (version ≤ 1)
  let (algorithm, parameters) ← Der.sequence algorithmReader
  let key ← Der.octets
  let publicKey ← Der.implicitField 1 Der.wholeBits
  Der.check (publicKey.isSome = (version = 1))
  Der.remainingFields
  return ⟨algorithm, parameters, key⟩

def ofDer? (der : Bytes) : Option StoredKey := reader.all der

/-- The curve that the parameters name, if they name anything. -/
def parameterId? (stored : StoredKey) : Option ObjectId :=
  match stored.parameters with
  | some ⟨tag, contents⟩ => if tag = ObjectId.tag then ObjectId.ofContents? contents else none
  | none => none

def nullElement : Der.Element := ⟨0x05, []⟩

/-- Two primes and the numbers derived from them; the last three are not needed. -/
def rsaReader : Der.Reader Rsa.PrivateKey := Der.sequence do
  let version ← Der.natural
  Der.check (version = 0)
  let modulus ← Der.natural
  let publicExponent ← Der.natural
  let privateExponent ← Der.natural
  let firstPrime ← Der.natural
  let secondPrime ← Der.natural
  let _ ← Der.natural
  let _ ← Der.natural
  let _ ← Der.natural
  return { modulus, publicExponent, privateExponent, firstPrime, secondPrime }

def readRsa (stored : StoredKey) : Except KeyError SecretKey :=
  if stored.parameters = some nullElement then
    match rsaReader.all stored.key with
    | some key => if valid : key.isValid then .ok (.rsa key valid) else .error .encoding
    | none => .error .encoding
  else .error .encoding

/-- The scalar and the point that may come with it. -/
def curveReader : Der.Reader (Bytes × Option Bytes) := Der.sequence do
  let version ← Der.natural
  Der.check (version = 1)
  let scalar ← Der.octets
  let _ ← Der.explicitField 0 ObjectId.reader
  let point ← Der.explicitField 1 Der.bits
  return (scalar, point)

/-- Scalars may be shorter than the curve's width, but not by much. -/
def minScalarSize : Nat := 24

def hasScalarSize (c : Curve) (size : Nat) : Bool := minScalarSize ≤ size && size ≤ c.size

def isPointOf (c : Curve) (scalar : Nat) (point : Bytes) : Bool :=
  let expected := c.multiple scalar
  point = expected.encode c || point = expected.encodeCompressed c

def readCurve (c : Curve) (stored : StoredKey) : Except KeyError SecretKey :=
  match curveReader.all stored.key with
  | none => .error .encoding
  | some (bytes, point) =>
    let scalar := BigEndian.read bytes
    if valid : c.isScalar scalar then
      if hasScalarSize c bytes.length && point.all (isPointOf c scalar) then
        .ok (.curve c scalar valid)
      else .error .encoding
    else .error .encoding

def read (stored : StoredKey) : Except KeyError SecretKey :=
  if stored.algorithm = rsaAlgorithm then stored.readRsa
  else if stored.algorithm ≠ curveAlgorithm then .error (.algorithm stored.algorithm)
  else match stored.parameterId? with
    | none => .error (.curve none)
    | some oid =>
      match curves.lookup oid with
      | some c => stored.readCurve c
      | none => .error (.curve (some oid))

end StoredKey

namespace SecretKey

def ofDer (der : Bytes) : Except KeyError SecretKey :=
  match StoredKey.ofDer? der with
  | some stored => stored.read
  | none => .error .encoding

def pemTag : String := "PRIVATE KEY"

def ofPem (text : String) : Except KeyError SecretKey :=
  match Pem.parse text with
  | .error e => .error (.pem e)
  | .ok pem => if pem.tag = pemTag then ofDer pem.contents else .error (.pemTag pem.tag)

/-- The key of a scalar, which is given in big-endian bytes. -/
def ofScalar (c : Curve) (bytes : Bytes) : Except KeyError SecretKey :=
  if valid : c.isScalar (BigEndian.read bytes) then .ok (.curve c (BigEndian.read bytes) valid)
  else .error .scalarRange

/-- The key of the first of the candidates, drawn at random, that is a scalar of the curve. -/
def draw? (c : Curve) : List Bytes → Option SecretKey
  | [] => none
  | bytes :: candidates =>
    match ofScalar c bytes with
    | .ok key => some key
    | .error _ => draw? c candidates

end SecretKey

end Enrollment
