import Enrollment.Codec.Hex

/-! # JSON tokens

A text is cut into tokens without looking at their order. A token that is wrong or that the end of
the text cuts short stays in the sequence as the last one, so a reader that walks the tokens meets
faults in the order of the text.
-/

namespace Enrollment.Json

/-- Why a text is not a document: something in it is wrong, or it ends too early. -/
inductive Fault where
  | malformed
  | truncated
  deriving DecidableEq, Repr

/-- A part of a quoted text: a byte, written as itself or by a short escape, or the sixteen-bit
unit of a four-digit escape. -/
inductive Piece where
  | byte (b : UInt8)
  | unit (n : Nat)
  deriving DecidableEq, Repr

/-- A quoted text up to its closing quote, or up to the fault that takes its place. -/
structure Quoted where
  pieces : List Piece
  stop : Option Fault
  deriving DecidableEq, Repr

/-- The digits of a number as written. -/
structure Numeral where
  negative : Bool
  whole : List Nat
  fraction : List Nat
  exponent : Option (Bool × List Nat)
  deriving DecidableEq, Repr

inductive Token where
  | openList
  | closeList
  | openObject
  | closeObject
  | comma
  | colon
  | null
  | bool (b : Bool)
  | number (n : Numeral)
  /-- A number that the end of the text cuts short. -/
  | shortNumber
  | text (q : Quoted)
  | broken (fault : Fault)
  deriving DecidableEq, Repr

def isSpace (b : UInt8) : Bool := b = 0x20 || b = 0x0A || b = 0x09 || b = 0x0D

def digit? (b : UInt8) : Option Nat :=
  if 0x30 ≤ b ∧ b ≤ 0x39 then some (b.toNat - 0x30) else none

/-- The byte that a short escape stands for. -/
def shortEscape? (b : UInt8) : Option UInt8 :=
  if b = 0x22 ∨ b = 0x5C ∨ b = 0x2F then some b
  else if b = 0x62 then some 0x08
  else if b = 0x66 then some 0x0C
  else if b = 0x6E then some 0x0A
  else if b = 0x72 then some 0x0D
  else if b = 0x74 then some 0x09
  else none

def hexUnit? (a b c d : UInt8) : Option Nat := do
  let value (x : UInt8) := Hex.value? (Char.ofNat x.toNat)
  return (((← value a) * 16 + (← value b)) * 16 + (← value c)) * 16 + (← value d)

/-- Reads a quoted text after its opening quote. -/
def scanQuoted : Bytes → Quoted × Bytes
  | [] => (⟨[], some .truncated⟩, [])
  | b :: rest =>
    if b = 0x22 then (⟨[], none⟩, rest)
    else if b = 0x5C then
      match rest with
      | [] => (⟨[], some .truncated⟩, [])
      | e :: rest' =>
        if e = 0x75 then
          match rest' with
          | h₁ :: h₂ :: h₃ :: h₄ :: rest'' =>
            match hexUnit? h₁ h₂ h₃ h₄ with
            | some n =>
              let (q, after) := scanQuoted rest''
              (⟨.unit n :: q.pieces, q.stop⟩, after)
            | none => (⟨[], some .malformed⟩, [])
          | _ => (⟨[], some .truncated⟩, [])
        else match shortEscape? e with
          | some c =>
            let (q, after) := scanQuoted rest'
            (⟨.byte c :: q.pieces, q.stop⟩, after)
          | none => (⟨[], some .malformed⟩, [])
    else if b < 0x20 then (⟨[], some .malformed⟩, [])
    else
      let (q, after) := scanQuoted rest
      (⟨.byte b :: q.pieces, q.stop⟩, after)

def scanDigits : Bytes → List Nat × Bytes
  | [] => ([], [])
  | b :: rest =>
    match digit? b with
    | some d => let (ds, after) := scanDigits rest; (d :: ds, after)
    | none => ([], b :: rest)

/-- What is said of a number when a digit is due and `rest` follows. -/
def digitDue (rest : Bytes) : Token :=
  if rest.isEmpty then .shortNumber else .broken .malformed

def scanExponent (negative : Bool) (whole fraction : List Nat) (rest : Bytes) : Token × Bytes :=
  let plain : Token × Bytes := (.number ⟨negative, whole, fraction, none⟩, rest)
  match rest with
  | [] => plain
  | e :: signed =>
    if e = 0x65 ∨ e = 0x45 then
      let (down, digits) := match signed with
        | s :: after => if s = 0x2D then (true, after) else if s = 0x2B then (false, after)
            else (false, signed)
        | [] => (false, [])
      match scanDigits digits with
      | ([], after) => (digitDue after, [])
      | (ds, after) => (.number ⟨negative, whole, fraction, some (down, ds)⟩, after)
    else plain

def scanFraction (negative : Bool) (whole : List Nat) (rest : Bytes) : Token × Bytes :=
  match rest with
  | [] => (.number ⟨negative, whole, [], none⟩, [])
  | b :: after =>
    if b = 0x2E then
      match scanDigits after with
      | ([], after') => (digitDue after', [])
      | (ds, after') => scanExponent negative whole ds after'
    else scanExponent negative whole [] rest

/-- Reads a number after its sign. A leading zero stands alone. -/
def scanNumber (negative : Bool) (rest : Bytes) : Token × Bytes :=
  match scanDigits rest with
  | ([], after) => (digitDue after, [])
  | (0 :: _ :: _, _) => (.broken .malformed, [])
  | (ds, after) => scanFraction negative ds after

/-- Matches the rest of a word. -/
def scanWord (token : Token) : Bytes → Bytes → Token × Bytes
  | [], rest => (token, rest)
  | _ :: _, [] => (.broken .truncated, [])
  | w :: word, b :: rest =>
    if b = w then scanWord token word rest else (.broken .malformed, [])

def scanToken (b : UInt8) (rest : Bytes) : Token × Bytes :=
  if b = 0x5B then (.openList, rest)
  else if b = 0x5D then (.closeList, rest)
  else if b = 0x7B then (.openObject, rest)
  else if b = 0x7D then (.closeObject, rest)
  else if b = 0x2C then (.comma, rest)
  else if b = 0x3A then (.colon, rest)
  else if b = 0x22 then (.text (scanQuoted rest).1, (scanQuoted rest).2)
  else if b = 0x2D then scanNumber true rest
  else if (digit? b).isSome then scanNumber false (b :: rest)
  else if b = 0x6E then scanWord .null [0x75, 0x6C, 0x6C] rest
  else if b = 0x74 then scanWord (.bool true) [0x72, 0x75, 0x65] rest
  else if b = 0x66 then scanWord (.bool false) [0x61, 0x6C, 0x73, 0x65] rest
  else (.broken .malformed, [])

theorem scanQuoted_length_le (bytes : Bytes) :
    (scanQuoted bytes).2.length ≤ bytes.length := by
  fun_induction scanQuoted bytes <;> simp_all <;> omega

theorem scanDigits_length_le (bytes : Bytes) :
    (scanDigits bytes).2.length ≤ bytes.length := by
  fun_induction scanDigits bytes <;> simp_all
  omega

theorem scanExponent_length_le (negative : Bool) (whole fraction : List Nat) (rest : Bytes) :
    (scanExponent negative whole fraction rest).2.length ≤ rest.length := by
  unfold scanExponent
  split
  · simp
  · rename_i e signed
    split
    · generalize hs : (match signed with
        | s :: after => if s = 0x2D then (true, after) else if s = 0x2B then (false, after)
            else (false, signed)
        | [] => (false, [])) = split
      have hlen : split.2.length ≤ signed.length := by
        rw [← hs]
        cases signed with
        | nil => simp
        | cons s after =>
          dsimp only
          repeat' split
          all_goals simp
      have hd := scanDigits_length_le split.2
      simp only [List.length_cons]
      split
      · simp
      · rename_i ds after hscan
        rw [hscan] at hd
        simp only at hd ⊢
        omega
    · simp

theorem scanFraction_length_le (negative : Bool) (whole : List Nat) (rest : Bytes) :
    (scanFraction negative whole rest).2.length ≤ rest.length := by
  unfold scanFraction
  split
  · simp
  · rename_i b after
    split
    · have hd := scanDigits_length_le after
      split
      · simp
      · rename_i ds after' _ hscan
        have he := scanExponent_length_le negative whole ds after'
        rw [hscan] at hd
        simp only [List.length_cons] at hd ⊢
        omega
    · exact scanExponent_length_le negative whole [] _

theorem scanNumber_length_le (negative : Bool) (rest : Bytes) :
    (scanNumber negative rest).2.length ≤ rest.length := by
  unfold scanNumber
  have hd := scanDigits_length_le rest
  split
  · simp
  · simp
  · rename_i ds after _ _ hscan
    have hf := scanFraction_length_le negative ds after
    rw [hscan] at hd
    simp only at hd
    omega

/-- A number that starts with a digit takes at least that digit. -/
theorem scanNumber_length_lt {b : UInt8} {d : Nat} (hb : digit? b = some d) (negative : Bool)
    (rest : Bytes) : (scanNumber negative (b :: rest)).2.length < (b :: rest).length := by
  unfold scanNumber
  have hd := scanDigits_length_le rest
  simp only [scanDigits, hb]
  split
  · simp
  · simp
  · rename_i ds after _ _ hscan
    have hf := scanFraction_length_le negative ds after
    injection hscan with _ hafter
    rw [hafter] at hd
    simp only [List.length_cons]
    omega

theorem scanWord_length_le (token : Token) (word rest : Bytes) :
    (scanWord token word rest).2.length ≤ rest.length := by
  fun_induction scanWord token word rest <;> simp_all
  omega

theorem length_le_of_cases {c : Prop} [Decidable c] {x y : Token × Bytes} {n : Nat}
    (hx : c → x.2.length ≤ n) (hy : ¬c → y.2.length ≤ n) :
    (if c then x else y).2.length ≤ n := by
  by_cases h : c
  · rw [if_pos h]; exact hx h
  · rw [if_neg h]; exact hy h

theorem scanToken_length_le (b : UInt8) (rest : Bytes) :
    (scanToken b rest).2.length ≤ rest.length := by
  have same : rest.length ≤ rest.length := Nat.le_refl _
  unfold scanToken
  refine length_le_of_cases (fun _ => same) fun _ => ?_
  refine length_le_of_cases (fun _ => same) fun _ => ?_
  refine length_le_of_cases (fun _ => same) fun _ => ?_
  refine length_le_of_cases (fun _ => same) fun _ => ?_
  refine length_le_of_cases (fun _ => same) fun _ => ?_
  refine length_le_of_cases (fun _ => same) fun _ => ?_
  refine length_le_of_cases (fun _ => scanQuoted_length_le rest) fun _ => ?_
  refine length_le_of_cases (fun _ => scanNumber_length_le true rest) fun _ => ?_
  refine length_le_of_cases (fun h => ?_) fun _ => ?_
  · obtain ⟨d, hd⟩ := Option.isSome_iff_exists.1 h
    exact Nat.le_of_lt_succ (scanNumber_length_lt hd false rest)
  refine length_le_of_cases (fun _ => scanWord_length_le _ _ _) fun _ => ?_
  refine length_le_of_cases (fun _ => scanWord_length_le _ _ _) fun _ => ?_
  refine length_le_of_cases (fun _ => scanWord_length_le _ _ _) fun _ => ?_
  exact Nat.zero_le _

def tokens : Bytes → List Token
  | [] => []
  | b :: rest =>
    if isSpace b then tokens rest
    else
      let scanned := scanToken b rest
      scanned.1 :: tokens scanned.2
termination_by bytes => bytes.length
decreasing_by
  · simp only [List.length_cons]
    omega
  · have := scanToken_length_le b rest
    simp only [List.length_cons]
    omega

end Enrollment.Json
