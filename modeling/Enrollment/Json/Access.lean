import Enrollment.Json.Value

/-! # Members of values

Looking into a value without asking that it has a certain form. What is missing, or is of another
kind, counts as empty.
-/

namespace Enrollment.Json.Value

variable (v : Value) (name : String)

def member : Value := (v.field? name).getD .null

def textAt? : Option String :=
  match v.member name with
  | .text s => some s
  | _ => none

def textAt : String := (v.textAt? name).getD ""

def listAt? : Option (List Value) :=
  match v.member name with
  | .list items => some items
  | _ => none

def listAt : List Value := (v.listAt? name).getD []

def textsAt : List String :=
  (v.listAt name).filterMap fun
    | .text s => some s
    | _ => none

def intAt? : Option Int :=
  match v.member name with
  | .number (.int n) => some n
  | _ => none

def intAt : Int := (v.intAt? name).getD 0

def natAt? : Option Nat := (v.intAt? name).map Int.toNat

def natAt : Nat := (v.natAt? name).getD 0

def flagAt : Bool :=
  match v.member name with
  | .bool b => b
  | _ => false

def membersAt? : Option (List (String × Value)) :=
  match v.member name with
  | .object members => some members
  | _ => none

def membersAt : List (String × Value) := (v.membersAt? name).getD []

end Enrollment.Json.Value
