import Enrollment.Text.Utf8

/-! # Variables of the surroundings -/

namespace Enrollment

/-- A variable has a text, or is missing, or is not text at all. -/
inductive Variable where
  | missing
  | text (s : String)
  | notText
  deriving DecidableEq, Repr

def Variable.ofBytes (bytes : Bytes) : Variable :=
  match Utf8.decode? bytes with
  | some s => .text s
  | none => .notText

abbrev Variables := String → Variable

namespace Variables

/-- Variables that have texts. -/
def ofTexts (texts : String → Option String) : Variables := fun key =>
  match texts key with
  | some s => .text s
  | none => .missing

/-- Variables as the surroundings have them, which need not be texts. -/
def ofBytes (bytes : String → Option Bytes) : Variables := fun key =>
  match bytes key with
  | some b => .ofBytes b
  | none => .missing

end Variables

end Enrollment
