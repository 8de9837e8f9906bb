import Enrollment.Natural

/-! # The SHA-2 family

One description for all word sizes: a message is padded to whole blocks of sixteen words, each
block is mixed into eight registers, and the digest is the front of the registers' bytes.
-/

namespace Enrollment.Digest

structure Registers (Word : Type) where
  a : Word
  b : Word
  c : Word
  d : Word
  e : Word
  f : Word
  g : Word
  h : Word
  deriving DecidableEq, Repr

def Registers.toList {Word : Type} (r : Registers Word) : List Word :=
  [r.a, r.b, r.c, r.d, r.e, r.f, r.g, r.h]

/-- What the members of the family differ in. -/
structure Sha2 (Word : Type) where
  wordSize : Nat
  digestSize : Nat
  initial : Registers Word
  constants : List Word
  scheduleLow : Word → Word
  scheduleHigh : Word → Word
  mixLow : Word → Word
  mixHigh : Word → Word
  ofNat : Nat → Word
  toNat : Word → Nat

namespace Sha2

variable {Word : Type} [Add Word] [AndOp Word] [XorOp Word] [Complement Word] [Inhabited Word]

def blockSize (alg : Sha2 Word) : Nat := 16 * alg.wordSize

def padding (alg : Sha2 Word) (length : Nat) : Bytes :=
  let lengthSize := 2 * alg.wordSize
  let zeros := (alg.blockSize - (length + 1 + lengthSize) % alg.blockSize) % alg.blockSize
  0x80 :: List.replicate zeros 0 ++ BigEndian.write lengthSize (8 * length)

/-- The first `count` pieces of a fixed size. -/
def pieces (size : Nat) : Nat → Bytes → List Bytes
  | 0, _ => []
  | count + 1, bytes => bytes.take size :: pieces size count (bytes.drop size)

def words (alg : Sha2 Word) (block : Bytes) : List Word :=
  (pieces alg.wordSize 16 block).map fun piece => alg.ofNat (BigEndian.read piece)

/-- The word that follows the last sixteen of the schedule. -/
def nextWord (alg : Sha2 Word) (window : List Word) : Word :=
  alg.scheduleHigh (window.getD 14 default) + window.getD 9 default +
    alg.scheduleLow (window.getD 1 default) + window.getD 0 default

def round (alg : Sha2 Word) (r : Registers Word) (constant word : Word) : Registers Word :=
  let choice := (r.e &&& r.f) ^^^ (~~~r.e &&& r.g)
  let majority := (r.a &&& r.b) ^^^ (r.a &&& r.c) ^^^ (r.b &&& r.c)
  let first := r.h + alg.mixHigh r.e + choice + constant + word
  let second := alg.mixLow r.a + majority
  ⟨first + second, r.a, r.b, r.c, r.d + first, r.e, r.f, r.g⟩

def rounds (alg : Sha2 Word) : List Word → Registers Word → List Word → Registers Word
  | [], r, _ => r
  | constant :: constants, r, window =>
    rounds alg constants (alg.round r constant (window.headD default))
      (window.drop 1 ++ [alg.nextWord window])

def compress (alg : Sha2 Word) (r : Registers Word) (block : Bytes) : Registers Word :=
  let s := alg.rounds alg.constants r (alg.words block)
  ⟨r.a + s.a, r.b + s.b, r.c + s.c, r.d + s.d, r.e + s.e, r.f + s.f, r.g + s.g, r.h + s.h⟩

def hash (alg : Sha2 Word) (message : Bytes) : Bytes :=
  let padded := message ++ alg.padding message.length
  let blocks := pieces alg.blockSize (padded.length / alg.blockSize) padded
  let r := blocks.foldl alg.compress alg.initial
  (r.toList.flatMap fun word => BigEndian.write alg.wordSize (alg.toNat word)).take alg.digestSize

end Sha2

/-- A hash function as its users see it. -/
structure Hash where
  blockSize : Nat
  digestSize : Nat
  digest : Bytes → Bytes

def Sha2.toHash {Word : Type} [Add Word] [AndOp Word] [XorOp Word] [Complement Word]
    [Inhabited Word] (alg : Sha2 Word) : Hash :=
  ⟨alg.blockSize, alg.digestSize, alg.hash⟩

/-! Keyed digests -/

def Hash.blockKey (hash : Hash) (key : Bytes) : Bytes :=
  let short := if hash.blockSize < key.length then hash.digest key else key
  short ++ List.replicate (hash.blockSize - short.length) 0

/-- The keyed digest of a message (HMAC). -/
def Hash.keyed (hash : Hash) (key message : Bytes) : Bytes :=
  let key := hash.blockKey key
  let inner := hash.digest (key.map (· ^^^ 0x36) ++ message)
  hash.digest (key.map (· ^^^ 0x5c) ++ inner)

end Enrollment.Digest
