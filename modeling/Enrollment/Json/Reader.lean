import Enrollment.Json.Outline
import Enrollment.Json.Number
import Enrollment.Text.Quoted

/-! # Reading typed values

A reader turns an outline into a value of a type, or says why it cannot: because the text is not a
document, or because the document does not fit the type. Readers visit an outline from left to
right and stop at the first difficulty.
-/

namespace Enrollment.Json

/-- What was found where something else was expected. -/
inductive Found where
  | null
  | bool (b : Bool)
  | number (n : Number)
  | text (s : String)
  | sequence
  | map
  deriving DecidableEq, Repr

def Found.message : Found → String
  | .null => "null"
  | .bool b => "boolean `" ++ (if b then "true" else "false") ++ "`"
  | .number (.int n) => "integer `" ++ toString n ++ "`"
  | .number (.real bits) => "floating point `" ++ String.ofList (realText bits) ++ "`"
  | .text s => "string " ++ Text.quoted s
  | .sequence => "sequence"
  | .map => "map"

/-- A document that does not fit. -/
inductive Unfit where
  | missing (field : String)
  | duplicate (field : String)
  | unknownVariant (name : String) (known : List String)
  | wrongType (found : Found) (expected : String)
  | wrongValue (found : Found) (expected : String)
  | wrongLength (length : Nat) (expected : String)
  | dateTime
  | refused (reason : String)
  deriving DecidableEq, Repr

def listed (names : List String) : String :=
  ", ".intercalate (names.map fun name => "`" ++ name ++ "`")

def Unfit.message : Unfit → String
  | .missing field => "missing field `" ++ field ++ "`"
  | .duplicate field => "duplicate field `" ++ field ++ "`"
  | .unknownVariant name known =>
    "unknown variant `" ++ name ++ "`, expected one of " ++ listed known
  | .wrongType found expected => "invalid type: " ++ found.message ++ ", expected " ++ expected
  | .wrongValue found expected => "invalid value: " ++ found.message ++ ", expected " ++ expected
  | .wrongLength length expected =>
    "invalid length " ++ toString length ++ ", expected " ++ expected
  | .dateTime => "<date-time>"
  | .refused reason => reason

inductive ReadError where
  | fault (f : Fault)
  | unfit (u : Unfit)
  deriving DecidableEq, Repr

def ReadError.message : ReadError → String
  | .fault .malformed => "<syntax>"
  | .fault .truncated => "<eof>"
  | .unfit u => u.message

def malformed {α : Type} : Except ReadError α := .error (.fault .malformed)

def unfit {α : Type} (u : Unfit) : Except ReadError α := .error (.unfit u)

/-- Reads an outline that may hold containers up to a given depth. -/
abbrev Reader (α : Type) := Nat → Outline → Except ReadError α

/-- Containers may be nested one less than this. -/
def maxDepth : Nat := 128

def enter (depth : Nat) : Except ReadError Nat :=
  if depth ≤ 1 then malformed else .ok (depth - 1)

/-- The bytes of a quoted text. Units from the surrogate range must come in pairs. -/
def pieceBytes (stop : Option Fault) : List Piece → Except Fault Bytes
  | [] => match stop with | some f => .error f | none => .ok []
  | .byte b :: rest => (pieceBytes stop rest).map (b :: ·)
  | .unit n :: rest =>
    if 0xDC00 ≤ n ∧ n ≤ 0xDFFF then .error .malformed
    else if 0xD800 ≤ n ∧ n ≤ 0xDBFF then
      match rest with
      | [] => .error (stop.getD .malformed)
      | .unit m :: rest' =>
        if 0xDC00 ≤ m ∧ m ≤ 0xDFFF then
          let c := (n - 0xD800) * 0x400 + (m - 0xDC00) + 0x10000
          (pieceBytes stop rest').map (Utf8.encodeChar (Char.ofNat c) ++ ·)
        else .error .malformed
      | .byte _ :: _ => .error .malformed
    else (pieceBytes stop rest).map (Utf8.encodeChar (Char.ofNat n) ++ ·)

def Quoted.read (q : Quoted) : Except ReadError String :=
  match pieceBytes q.stop q.pieces with
  | .error f => .error (.fault f)
  | .ok bytes => match Utf8.decode? bytes with
    | some s => .ok s
    | none => malformed

def Numeral.read (n : Numeral) : Except ReadError Number :=
  match n.value? with
  | some v => .ok v
  | none => malformed

/-- Reads just enough of an outline to say what it is instead of what was expected. -/
def wrongType {α : Type} (expected : String) :
    Outline → Except ReadError α
  | .null => unfit (.wrongType .null expected)
  | .bool b => unfit (.wrongType (.bool b) expected)
  | .number n => do unfit (.wrongType (.number (← n.read)) expected)
  | .shortNumber => .error (.fault .truncated)
  | .text q => do unfit (.wrongType (.text (← q.read)) expected)
  | .list _ _ => unfit (.wrongType .sequence expected)
  | .object _ _ => unfit (.wrongType .map expected)
  | .broken f => .error (.fault f)

def Ending.check : Ending → Except ReadError Unit
  | .closed => .ok ()
  | .fault f => .error (.fault f)
  | .keyDue => .error (.fault .truncated)
  | .badKey _ => malformed

/-- Passes over an outline whose value is of no interest; only the form of the text counts, not
the range of its numbers, the pairing of its surrogates or the depth of its containers. -/
def skip : Outline → Except ReadError Unit
  | .null | .bool _ | .number _ => .ok ()
  | .shortNumber => malformed
  | .text q => skipQuoted q
  | .list items ending => do
    skipItems items
    ending.check
  | .object members ending => do
    skipMembers members
    ending.check
  | .broken f => .error (.fault f)
where
  skipQuoted (q : Quoted) : Except ReadError Unit :=
    match q.stop with
    | some f => .error (.fault f)
    | none => .ok ()
  skipItems : List Outline → Except ReadError Unit
    | [] => .ok ()
    | item :: items => do
      skip item
      skipItems items
  skipMembers : List (Quoted × Outline) → Except ReadError Unit
    | [] => .ok ()
    | (key, value) :: members => do
      skipQuoted key
      skip value
      skipMembers members

namespace Reader

def text : Reader String := fun _ node =>
  match node with
  | .text q => q.read
  | other => wrongType "a string" other

/-- A text that is put into its type by a function which may refuse it. -/
def textAs {α : Type} (expected : String) (f : String → Except Unfit α) : Reader α :=
  fun _ node =>
    match node with
    | .text q => do
      match f (← q.read) with
      | .ok a => .ok a
      | .error u => unfit u
    | other => wrongType expected other

def bool : Reader Bool := fun _ node =>
  match node with
  | .bool b => .ok b
  | other => wrongType "a boolean" other

/-- A whole number of at most sixteen bits. -/
def word16 : Reader Nat := fun _ node =>
  match node with
  | .number n => do
    match ← n.read with
    | .int k =>
      if 0 ≤ k ∧ k < 65536 then return k.toNat
      else unfit (.wrongValue (.number (.int k)) "u16")
    | real => unfit (.wrongType (.number real) "u16")
  | other => wrongType "u16" other

/-- Anything, where `null` stands for nothing. -/
def optional {α : Type} (reader : Reader α) : Reader (Option α) := fun depth node =>
  match node with
  | .null => .ok none
  | other => (reader depth other).map some

def listItems {α : Type} (reader : Reader α) (depth : Nat) :
    List Outline → Except ReadError (List α)
  | [] => .ok []
  | item :: items => do
    let a ← reader depth item
    return a :: (← listItems reader depth items)

def list {α : Type} (reader : Reader α) : Reader (List α) := fun depth node =>
  match node with
  | .list items ending => do
    let depth ← enter depth
    let values ← listItems reader depth items
    ending.check
    return values
  | other => wrongType "a sequence" other

/-- One of a fixed set of names, written as a text or as an object from the name to `null`. -/
def variant {α : Type} (known : List (String × α)) : Reader α := fun depth node =>
  let find (name : String) : Except ReadError α :=
    match known.lookup name with
    | some a => .ok a
    | none => unfit (.unknownVariant name (known.map (·.1)))
  match node with
  | .text q => do find (← q.read)
  | .object members ending => do
    let _ ← enter depth
    match members, ending with
    | [], .badKey token => wrongName token
    | [], .fault f => .error (.fault f)
    | [], .keyDue => .error (.fault .truncated)
    | [], .closed => malformed
    | (key, value) :: rest, ending =>
      let a ← find (← key.read)
      match value with
      | .null => pure ()
      | other => wrongType "unit" other
      match rest, ending with
      | [], .closed => return a
      | [], .fault f => .error (.fault f)
      | _, _ => malformed
  | .broken f => .error (.fault f)
  | _ => malformed
where
  /-- A name may be missing its quotes in ways that still make a value of another type. -/
  wrongName : Token → Except ReadError α
    | .null => unfit (.wrongType .null "variant identifier")
    | .bool b => unfit (.wrongType (.bool b) "variant identifier")
    | .number n => do unfit (.wrongType (.number (← n.read)) "variant identifier")
    | .openList => unfit (.wrongType .sequence "variant identifier")
    | .openObject => unfit (.wrongType .map "variant identifier")
    | .shortNumber => .error (.fault .truncated)
    | .broken f => .error (.fault f)
    | _ => malformed

/-- Reads a whole text, after which nothing may follow. -/
def run {α : Type} (reader : Reader α) (bytes : Bytes) : Except ReadError α := do
  let (root, more) := Outline.ofBytes bytes
  let a ← reader maxDepth root
  if more then malformed else return a

end Reader

end Enrollment.Json
