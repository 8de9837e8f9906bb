import Enrollment.Text.Blank
import Enrollment.Text.Utf8

/-! # Header fields

Header fields in the order received. Names are compared without case and a look-up takes the first.
-/

namespace Enrollment.Http

abbrev Headers := List (String × Bytes)

namespace Headers

def get? (headers : Headers) (name : String) : Option Bytes :=
  (headers.find? fun field => Text.lower field.1 = Text.lower name).map (·.2)

end Headers

def isTextByte (b : UInt8) : Bool := (0x20 ≤ b && b ≤ 0x7E) || b = 0x09

/-- The text of a field value that is printable ASCII. -/
def fieldText? (value : Bytes) : Option String :=
  if value.all isTextByte then some (String.ofList (value.map fun b => Char.ofNat b.toNat))
  else none

namespace Headers

def text? (headers : Headers) (name : String) : Option String :=
  (headers.get? name).bind fieldText?

end Headers

end Enrollment.Http
