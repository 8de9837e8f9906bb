import Enrollment.Json.Reader

/-! # Reading records

A record is written as an object with its fields as members in any order, or as the list of its
fields in their order. Members of other names are passed over. A draft collects the fields; what
is still missing at the end is reported in the order of the fields.
-/

namespace Enrollment.Json

/-- A field of a record that is collected in drafts of type `δ`. -/
structure Field (δ : Type) where
  name : String
  filled : δ → Bool
  fill : Nat → Outline → δ → Except ReadError δ
  /-- Whether the list of the fields may end before this one. -/
  mayEnd : Bool

def Field.of {δ α : Type} (name : String) (reader : Reader α) (get : δ → Option α)
    (set : δ → Option α → δ) (mayEnd : Bool) : Field δ where
  name := name
  filled draft := (get draft).isSome
  fill depth node draft := (reader depth node).map fun a => set draft (some a)
  mayEnd := mayEnd

structure Record (δ : Type) where
  title : String
  empty : δ
  fields : List (Field δ)

def required {α : Type} (name : String) : Option α → Except ReadError α
  | some a => .ok a
  | none => unfit (.missing name)

namespace Record

variable {δ : Type} (record : Record δ)

def expected : String := "struct " ++ record.title

def expectedLength : String :=
  record.expected ++ " with " ++ toString record.fields.length ++
    (if record.fields.length = 1 then " element" else " elements")

def field? (name : String) : Option (Field δ) := record.fields.find? (·.name = name)

def readMembers (depth : Nat) : List (Quoted × Outline) → δ → Except ReadError δ
  | [], draft => .ok draft
  | (key, value) :: members, draft => do
    let name ← key.read
    match record.field? name with
    | some field =>
      if field.filled draft then unfit (.duplicate name)
      else readMembers depth members (← field.fill depth value draft)
    | none =>
      skip value
      readMembers depth members draft

def readItems (depth : Nat) (ending : Ending) :
    Nat → List (Field δ) → List Outline → δ → Except ReadError δ
  | _, [], [], draft => do
    ending.check
    return draft
  | _, [], _ :: _, _ => malformed
  | index, field :: fields, item :: items, draft => do
    readItems depth ending (index + 1) fields items (← field.fill depth item draft)
  | index, field :: fields, [], draft => do
    ending.check
    if field.mayEnd then readItems depth ending (index + 1) fields [] draft
    else unfit (.wrongLength index record.expectedLength)

def read : Reader δ := fun depth node =>
  match node with
  | .object members ending => do
    let depth ← enter depth
    let draft ← record.readMembers depth members record.empty
    ending.check
    return draft
  | .list items ending => do
    let depth ← enter depth
    record.readItems depth ending 0 record.fields items record.empty
  | other => wrongType record.expected other

end Record

end Enrollment.Json
