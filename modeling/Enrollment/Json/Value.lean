import Enrollment.Json.Reader

/-! # JSON values

Documents of any shape. Members of an object are kept in the order of their names, each name once;
of members with one name the last one counts. The printer writes no blanks.
-/

namespace Enrollment.Json

inductive Value where
  | null
  | bool (b : Bool)
  | number (n : Number)
  | text (s : String)
  | list (items : List Value)
  | object (members : List (String × Value))
  deriving Repr, Inhabited

namespace Value

def int (n : Int) : Value := .number (.int n)

/-- Puts a member into its place in the order of names, over an earlier one of the same name. -/
def insert {α : Type} (name : String) (a : α) : List (String × α) → List (String × α)
  | [] => [(name, a)]
  | (other, b) :: rest =>
    if name < other then (name, a) :: (other, b) :: rest
    else if name = other then (name, a) :: rest
    else (other, b) :: insert name a rest

def ofMembers (members : List (String × Value)) : Value :=
  .object (members.foldl (fun sorted member => insert member.1 member.2 sorted) [])

def field? (name : String) : Value → Option Value
  | .object members => members.lookup name
  | _ => none

def escapedChar (c : Char) : List Char :=
  if c = '"' then ['\\', '"']
  else if c = '\\' then ['\\', '\\']
  else if c = '\x08' then ['\\', 'b']
  else if c = '\x0c' then ['\\', 'f']
  else if c = '\n' then ['\\', 'n']
  else if c = '\r' then ['\\', 'r']
  else if c = '\t' then ['\\', 't']
  else if c.toNat < 0x20 then
    ['\\', 'u', '0', '0', Hex.digit (c.toNat / 16), Hex.digit (c.toNat % 16)]
  else [c]

def textChars (s : String) : List Char := '"' :: s.toList.flatMap escapedChar ++ ['"']

def chars : Value → List Char
  | .null => ['n', 'u', 'l', 'l']
  | .bool true => ['t', 'r', 'u', 'e']
  | .bool false => ['f', 'a', 'l', 's', 'e']
  | .number n => n.text
  | .text s => textChars s
  | .list items => '[' :: itemChars items ++ [']']
  | .object members => '\x7b' :: memberChars members ++ ['\x7d']
where
  itemChars : List Value → List Char
    | [] => []
    | [item] => chars item
    | item :: items => chars item ++ ',' :: itemChars items
  memberChars : List (String × Value) → List Char
    | [] => []
    | [(name, value)] => textChars name ++ ':' :: chars value
    | (name, value) :: members => textChars name ++ ':' :: chars value ++ ',' :: memberChars members

def print (v : Value) : String := String.ofList v.chars

def ofOutline (depth : Nat) : Outline → Except ReadError Value
  | .null => .ok .null
  | .bool b => .ok (.bool b)
  | .number n => do return .number (← n.read)
  | .shortNumber => .error (.fault .truncated)
  | .text q => do return .text (← q.read)
  | .list items ending => do
    let depth ← enter depth
    let values ← ofItems depth items
    ending.check
    return .list values
  | .object members ending => do
    let depth ← enter depth
    let values ← namedValues depth members
    ending.check
    return .ofMembers values
  | .broken f => .error (.fault f)
where
  ofItems (depth : Nat) : List Outline → Except ReadError (List Value)
    | [] => .ok []
    | item :: items => do
      let value ← ofOutline depth item
      return value :: (← ofItems depth items)
  namedValues (depth : Nat) : List (Quoted × Outline) → Except ReadError (List (String × Value))
    | [] => .ok []
    | (key, node) :: members => do
      let name ← key.read
      let value ← ofOutline depth node
      return (name, value) :: (← namedValues depth members)

def reader : Reader Value := ofOutline

def ofBytes (bytes : Bytes) : Except ReadError Value := reader.run bytes

end Value

end Enrollment.Json
