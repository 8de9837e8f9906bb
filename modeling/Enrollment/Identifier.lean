import Enrollment.Text.Blank
import Enrollment.Network.Address
import Enrollment.Json.Record
import Enrollment.Json.Value

/-! # Identifiers

What a certificate is issued for: a DNS name in its normal form, or a network address. The normal
form of a name is lower case and has no final dot; only its first label may be a wildcard.
-/

namespace Enrollment

inductive Identifier where
  | dns (name : String)
  | ip (address : Network.Address)
  deriving DecidableEq, Repr

inductive IdentifierError where
  | emptyName
  | invalidName (name : String)
  | invalidAddress
  | unknownType (type : String)
  deriving DecidableEq, Repr

def IdentifierError.message : IdentifierError → String
  | .emptyName => "ACME DNS identifier değeri boş olamaz"
  | .invalidName name => "ACME DNS identifier değeri geçersiz: " ++ name
  | .invalidAddress => "ACME IP identifier değeri ayrıştırılamadı: invalid IP address syntax"
  | .unknownType type => "ACME identifier türü desteklenmiyor: " ++ type

namespace Identifier

def maxNameLength : Nat := 253

def maxLabelLength : Nat := 63

def isLabelChar (c : Char) : Bool := c.isAlphanum || c = '-' || c = '_'

def isLabel (label : List Char) : Bool :=
  !label.isEmpty && label.length ≤ maxLabelLength && label.head? != some '-' &&
    label.getLast? != some '-' && label.all isLabelChar

def isName (name : List Char) : Bool :=
  (name.flatMap Utf8.encodeChar).length ≤ maxNameLength &&
    match Text.split '.' name with
    | [] => true
    | first :: labels => (first = ['*'] || isLabel first) && labels.all isLabel

def ofName (text : String) : Except IdentifierError Identifier :=
  let trimmed := Text.trim text
  let name := (Text.trimEndBy (· = '.') trimmed.toList).map Char.toLower
  if name = [] then .error .emptyName
  else if isName name then .ok (.dns (String.ofList name))
  else .error (.invalidName trimmed)

def ofAddress (text : String) : Except IdentifierError Identifier :=
  match Network.Address.parse? (Text.trim text) with
  | some address => .ok (.ip address)
  | none => .error .invalidAddress

def value : Identifier → String
  | .dns name => name
  | .ip address => address.print

def type : Identifier → String
  | .dns _ => "dns"
  | .ip _ => "ip"

def ofTyped (type value : String) : Except IdentifierError Identifier :=
  if type = "dns" then ofName value
  else if type = "ip" then ofAddress value
  else .error (.unknownType type)

structure Draft where
  type : Option String
  value : Option String

def record : Json.Record Draft where
  title := "IdentifierWire"
  empty := ⟨none, none⟩
  fields := [
    .of "type" Json.Reader.text Draft.type (fun d a => { d with type := a }) false,
    .of "value" Json.Reader.text Draft.value (fun d a => { d with value := a }) false]

def reader : Json.Reader Identifier := fun depth node => do
  let draft ← record.read depth node
  let type ← Json.required "type" draft.type
  let value ← Json.required "value" draft.value
  match ofTyped type value with
  | .ok identifier => return identifier
  | .error e => Json.unfit (.refused e.message)

def toJson (identifier : Identifier) : Json.Value :=
  .object [("type", .text identifier.type), ("value", .text identifier.value)]

end Identifier

inductive NewOrderError where
  | missingIdentifier
  | identifier (cause : IdentifierError)
  deriving DecidableEq, Repr

def NewOrderError.message : NewOrderError → String
  | .missingIdentifier => "ACME newOrder isteği en az bir identifier içermelidir"
  | .identifier cause => cause.message

/-- The request for a new order: the identifiers it is for, at least one. -/
structure NewOrder where
  identifiers : List Identifier
  ne_nil : identifiers ≠ []
  deriving DecidableEq, Repr

namespace NewOrder

def ofIdentifiers (identifiers : List Identifier) : Except NewOrderError NewOrder :=
  if h : identifiers = [] then .error .missingIdentifier else .ok ⟨identifiers, h⟩

def ofNames (names : List String) : Except NewOrderError NewOrder :=
  match names.mapM Identifier.ofName with
  | .error e => .error (.identifier e)
  | .ok identifiers => ofIdentifiers identifiers

def toJson (request : NewOrder) : Json.Value :=
  .object [("identifiers", .list (request.identifiers.map Identifier.toJson))]

end NewOrder

end Enrollment
