/-! # Punycode

Labels of a domain name outside ASCII are written in ASCII: first the ASCII characters as they
are, then the others in increasing order, each as the distance from the one before in digits of
base 36 whose weights adapt to the distances seen so far.
-/

namespace Enrollment.Punycode

def digitChar (d : Nat) : Char :=
  if d < 26 then Char.ofNat (97 + d) else Char.ofNat (22 + d)

def digitValue? (c : Char) : Option Nat :=
  let n := c.toNat
  if 97 ≤ n ∧ n ≤ 122 then some (n - 97)
  else if 65 ≤ n ∧ n ≤ 90 then some (n - 65)
  else if 48 ≤ n ∧ n ≤ 57 then some (n - 22)
  else none

/-- The least digit that does not end a distance, at weight position `k`. -/
def threshold (k bias : Nat) : Nat := max 1 (min 26 (k - bias))

theorem threshold_pos (k bias : Nat) : 1 ≤ threshold k bias := Nat.le_max_left _ _

def adaptLoop (delta k : Nat) : Nat :=
  if 455 < delta then adaptLoop (delta / 35) (k + 36) else k + 36 * delta / (delta + 38)
termination_by delta
decreasing_by omega

def adapt (delta count : Nat) (first : Bool) : Nat :=
  let scaled := if first then delta / 700 else delta / 2
  adaptLoop (scaled + scaled / count) 0

def distanceDigits (bias k q : Nat) : List Char :=
  let t := threshold k bias
  if q < t then [digitChar q]
  else digitChar (t + (q - t) % (36 - t)) :: distanceDigits bias (k + 36) ((q - t) / (36 - t))
termination_by q
decreasing_by
  have := threshold_pos k bias
  exact Nat.lt_of_le_of_lt (Nat.div_le_self _ _) (by omega)

structure Progress where
  output : List Char
  delta : Nat
  bias : Nat
  handled : Nat

/-- Passes one character of the label while the characters equal to `m` are written. -/
def Progress.pass (basic m : Nat) (p : Progress) (c : Char) : Progress :=
  if c.toNat < m then { p with delta := p.delta + 1 }
  else if c.toNat = m then
    { output := p.output ++ distanceDigits p.bias 36 p.delta
      delta := 0
      bias := adapt p.delta (p.handled + 1) (p.handled = basic)
      handled := p.handled + 1 }
  else p

def encodeFrom (label : List Char) (basic : Nat) : List Nat → Nat → Progress → List Char
  | [], _, p => p.output
  | m :: points, n, p =>
    let p := { p with delta := p.delta + (m - n) * (p.handled + 1) }
    let p := label.foldl (Progress.pass basic m) p
    encodeFrom label basic points (m + 1) { p with delta := p.delta + 1 }

def isBasic (c : Char) : Bool := c.toNat < 0x80

def encode (label : List Char) : List Char :=
  let basic := label.filter isBasic
  let points := ((label.filter (!isBasic ·)).map Char.toNat).mergeSort.eraseDups
  basic ++ (if basic.isEmpty then [] else ['-']) ++
    encodeFrom label basic.length points 128 ⟨[], 0, 72, basic.length⟩

/-- Reads one distance; gives it added to `i`, and the rest. -/
def readDistance (bias : Nat) : List Char → Nat → Nat → Nat → Option (Nat × List Char)
  | [], _, _, _ => none
  | c :: rest, k, weight, i => do
    let d ← digitValue? c
    let i := i + d * weight
    let t := threshold k bias
    if d < t then return (i, rest)
    readDistance bias rest (k + 36) (weight * (36 - t)) i

theorem readDistance_length_lt {bias : Nat} {cs : List Char} {k weight i : Nat}
    {result : Nat × List Char} (h : readDistance bias cs k weight i = some result) :
    result.2.length < cs.length := by
  induction cs generalizing k weight i with
  | nil => simp [readDistance] at h
  | cons c rest ih =>
    simp only [readDistance, Option.bind_eq_bind, Option.bind_eq_some_iff] at h
    obtain ⟨d, _, h⟩ := h
    split at h
    · cases h
      simp
    · have := ih h
      simp only [List.length_cons]
      omega

def decodeFrom (output : List Char) (n i bias : Nat) (cs : List Char) : Option (List Char) :=
  match cs with
  | [] => some output
  | c :: rest =>
    match _found : readDistance bias (c :: rest) 36 1 i with
    | none => none
    | some (next, rest') =>
      let count := output.length + 1
      let point := n + next / count
      let place := next % count
      if point < 0xD800 ∨ (0xDFFF < point ∧ point < 0x110000) then
        decodeFrom (output.take place ++ Char.ofNat point :: output.drop place) point (place + 1)
          (adapt (next - i) count (i = 0)) rest'
      else none
termination_by cs.length
decreasing_by
  exact readDistance_length_lt _found

/-- The text before the last hyphen, and the text after it. -/
def splitLastHyphen (cs : List Char) : List Char × List Char :=
  let tail := cs.reverse.takeWhile (· ≠ '-')
  if tail.length = cs.length then ([], cs)
  else (cs.take (cs.length - tail.length - 1), tail.reverse)

def decode? (label : List Char) : Option (List Char) :=
  let (basic, digits) := splitLastHyphen label
  if basic.all isBasic then decodeFrom basic 128 0 72 digits else none

end Enrollment.Punycode
