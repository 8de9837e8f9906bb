/-! # UTF-8

Writing scalars as bytes, and reading bytes back: strictly (`decode?`) or with the replacement
character for every maximal ill-formed piece (`decodeLossy`).
-/

namespace Enrollment

abbrev Bytes := List UInt8

namespace Utf8

def encodeChar (c : Char) : Bytes :=
  let n := c.toNat
  if n < 0x80 then [n.toUInt8]
  else if n < 0x800 then [(0xC0 + n / 64).toUInt8, (0x80 + n % 64).toUInt8]
  else if n < 0x10000 then
    [(0xE0 + n / 4096).toUInt8, (0x80 + n / 64 % 64).toUInt8, (0x80 + n % 64).toUInt8]
  else
    [(0xF0 + n / 262144).toUInt8, (0x80 + n / 4096 % 64).toUInt8,
      (0x80 + n / 64 % 64).toUInt8, (0x80 + n % 64).toUInt8]

def encode (s : String) : Bytes := s.toList.flatMap encodeChar

def isTail (b : UInt8) : Bool := 0x80 ≤ b && b ≤ 0xBF

/-- The second bytes that may follow a lead byte, so that no overlong form and no surrogate
is read. -/
def isSecond (lead b : UInt8) : Bool :=
  if lead = 0xE0 then 0xA0 ≤ b && b ≤ 0xBF
  else if lead = 0xED then 0x80 ≤ b && b ≤ 0x9F
  else if lead = 0xF0 then 0x90 ≤ b && b ≤ 0xBF
  else if lead = 0xF4 then 0x80 ≤ b && b ≤ 0x8F
  else isTail b

def payload (b : UInt8) : Nat := b.toNat % 64

/-- Reads one scalar after its lead byte; `none` stands for an ill-formed piece, which ends
before the first byte that cannot continue it. -/
def next (lead : UInt8) (rest : Bytes) : Option Char × Bytes :=
  if lead < 0x80 then (some (Char.ofNat lead.toNat), rest)
  else if 0xC2 ≤ lead && lead ≤ 0xDF then
    match rest with
    | b :: rest' =>
      if isTail b then (some (Char.ofNat (lead.toNat % 32 * 64 + payload b)), rest')
      else (none, rest)
    | [] => (none, [])
  else if 0xE0 ≤ lead && lead ≤ 0xEF then
    match rest with
    | b :: rest' =>
      if isSecond lead b then
        match rest' with
        | c :: rest'' =>
          if isTail c then
            (some (Char.ofNat ((lead.toNat % 16 * 64 + payload b) * 64 + payload c)), rest'')
          else (none, rest')
        | [] => (none, [])
      else (none, rest)
    | [] => (none, [])
  else if 0xF0 ≤ lead && lead ≤ 0xF4 then
    match rest with
    | b :: rest' =>
      if isSecond lead b then
        match rest' with
        | c :: rest'' =>
          if isTail c then
            match rest'' with
            | d :: rest''' =>
              if isTail d then
                (some (Char.ofNat
                  (((lead.toNat % 8 * 64 + payload b) * 64 + payload c) * 64 + payload d)), rest''')
              else (none, rest'')
            | [] => (none, [])
          else (none, rest')
        | [] => (none, [])
      else (none, rest)
    | [] => (none, [])
  else (none, rest)

theorem next_length_le (lead : UInt8) (rest : Bytes) :
    (next lead rest).2.length ≤ rest.length := by
  unfold next
  repeat' split
  all_goals simp_all
  all_goals omega

/-- The scalars of a byte string, `none` for each ill-formed piece. -/
def scalars : Bytes → List (Option Char)
  | [] => []
  | b :: rest =>
    let step := next b rest
    step.1 :: scalars step.2
termination_by bytes => bytes.length
decreasing_by
  have := next_length_le b rest
  simp only [List.length_cons]
  omega

def decode? (bytes : Bytes) : Option String :=
  ((scalars bytes).mapM id).map String.ofList

def decodeLossy (bytes : Bytes) : String :=
  String.ofList ((scalars bytes).map (·.getD '\ufffd'))

end Utf8

end Enrollment
