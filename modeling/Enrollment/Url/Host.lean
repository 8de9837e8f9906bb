import Enrollment.Text.Blank
import Enrollment.Text.Lowercase
import Enrollment.Network.Address
import Enrollment.Url.Percent
import Enrollment.Url.Punycode

/-! # Hosts of URLs

A host is a domain name in its ASCII form, an opaque name (for schemes that do not name Internet
hosts), or a network address. A domain whose last label is a number is an IPv4 address.
-/

namespace Enrollment

/-- Why a text is not a URL. -/
inductive UrlError where
  | emptyHost
  | internationalName
  | invalidPort
  | invalidV4
  | invalidV6
  | invalidCharacter
  | relativeWithoutBase
  | relativeWithOpaqueBase
  deriving DecidableEq, Repr

def UrlError.message : UrlError → String
  | .emptyHost => "empty host"
  | .internationalName => "invalid international domain name"
  | .invalidPort => "invalid port number"
  | .invalidV4 => "invalid IPv4 address"
  | .invalidV6 => "invalid IPv6 address"
  | .invalidCharacter => "invalid domain character"
  | .relativeWithoutBase => "relative URL without a base"
  | .relativeWithOpaqueBase => "relative URL with a cannot-be-a-base base"

inductive Host where
  | name (s : String)
  | v4 (address : Network.V4)
  | v6 (address : Network.V6)
  deriving DecidableEq, Repr

namespace Host

def print : Host → String
  | .name s => s
  | .v4 address => address.print
  | .v6 address => "[" ++ Network.compressed address.groups ++ "]"

/-- Characters that no domain name holds once its escapes are resolved. -/
def isForbiddenInDomain (c : Char) : Bool :=
  c.toNat ≤ 0x20 || c.toNat = 0x7F ||
    ['#', '%', '/', ':', '<', '>', '?', '@', '[', '\\', ']', '^', '|'].contains c

def isForbiddenInOpaque (c : Char) : Bool :=
  ['\x00', '\t', '\n', '\r', ' ', '#', '/', ':', '<', '>', '?', '@', '[', '\\', ']', '^',
    '|'].contains c

/-- Characters that a domain name drops: joiners of no width, the soft hyphen and variation
selectors. -/
def isIgnored (c : Char) : Bool :=
  let n := c.toNat
  n = 0xAD || n = 0x200B || n = 0x2060 || n = 0x2064 || n = 0xFEFF || n = 0x34F ||
    (0x180B ≤ n && n ≤ 0x180D) || (0xFE00 ≤ n && n ≤ 0xFE0F) || (0xE0100 ≤ n && n ≤ 0xE01EF)

/-- Full-width forms stand for ASCII, and the ideographic full stops for the dot. -/
def narrow (c : Char) : Char :=
  let n := c.toNat
  if 0xFF01 ≤ n ∧ n ≤ 0xFF5E then Char.ofNat (n - 0xFEE0)
  else if n = 0x3002 ∨ n = 0xFF61 then '.'
  else if Text.isBlank c then ' '
  else c

/-- The lower case of a letter. That of a capital with a dot keeps the dot as a mark of its own. -/
def lowerLetter (c : Char) : List Char :=
  if c.toNat = 0x130 then ['i', '\u0307'] else [Text.lowercase c]

def mapDomain (cs : List Char) : List Char :=
  (cs.filter (!isIgnored ·)).flatMap fun c => lowerLetter (narrow c)

def isDisallowed (c : Char) : Bool :=
  let n := c.toNat
  (0x80 ≤ n && n ≤ 0x9F) || (0x200C ≤ n && n ≤ 0x200F) || (0x2028 ≤ n && n ≤ 0x202E) ||
    (0x2066 ≤ n && n ≤ 0x206F) || (0xE000 ≤ n && n ≤ 0xF8FF) || (0xFFF0 ≤ n && n ≤ 0xFFFF) ||
    0xE0000 ≤ n

/-- What the ASCII form of a label begins with when the label is not ASCII itself. -/
def asciiMark : List Char := ['x', 'n', '-', '-']

/-- The ASCII form of a label, or `none` when it has none. -/
def asciiLabel? (label : List Char) : Option (List Char) :=
  if asciiMark.isPrefixOf label then do
    if !label.all Punycode.isBasic then none
    let decoded ← Punycode.decode? (label.drop 4)
    if decoded.all Punycode.isBasic ∨ mapDomain decoded ≠ decoded ∨ decoded.any isDisallowed then
      none
    else return label
  else if label.all Punycode.isBasic then some label
  else if label.any isDisallowed then none
  else some (asciiMark ++ Punycode.encode label)

def asciiDomain? (cs : List Char) : Option (List Char) := do
  let labels ← (Text.split '.' (mapDomain cs)).mapM asciiLabel?
  let domain := List.intercalate ['.'] labels
  if domain.any isForbiddenInDomain then none else return domain

/-- A part of an IPv4 address: decimal, octal after `0`, hexadecimal after `0x`. -/
def v4Number? (cs : List Char) : Option Nat :=
  let ofDigits (radix : Nat) (ds : List Char) : Option Nat :=
    if ds.all fun c => (Hex.value? c).any (· < radix) then some (Network.digitsValue radix ds)
    else none
  match cs with
  | [] => none
  | '0' :: 'x' :: ds => ofDigits 16 ds
  | '0' :: 'X' :: ds => ofDigits 16 ds
  | '0' :: d :: ds => ofDigits 8 (d :: ds)
  | ds => ofDigits 10 ds

/-- The labels without the empty one after a final dot. -/
def labelsOf (domain : List Char) : List (List Char) :=
  let labels := Text.split '.' domain
  if labels.getLast? = some [] then labels.dropLast else labels

def endsInNumber (domain : List Char) : Bool :=
  match (labelsOf domain).getLast? with
  | none => false
  | some last => (!last.isEmpty && last.all Char.isDigit) || (v4Number? last).isSome

def v4? (domain : List Char) : Option Network.V4 := do
  let labels := labelsOf domain
  if 4 < labels.length then none
  let numbers ← labels.mapM v4Number?
  let last ← numbers.getLast?
  let before := numbers.dropLast
  if before.any (255 < ·) ∨ Nat.pow 256 (4 - before.length) ≤ last then none
  let n := before.zipIdx.foldl (fun n (k, i) => n + k * Nat.pow 256 (3 - i)) last
  return ⟨(n / 0x1000000).toUInt8, (n / 0x10000).toUInt8, (n / 0x100).toUInt8, n.toUInt8⟩

def ofBrackets (cs : List Char) : Except UrlError Host :=
  if cs.getLast? = some ']' then
    match Network.readV6 (cs.drop 1).dropLast with
    | some (address, []) => .ok (.v6 address)
    | _ => .error .invalidV6
  else .error .invalidV6

/-- The host of a URL with a special scheme. -/
def ofDomain (cs : List Char) : Except UrlError Host :=
  if cs.head? = some '[' then ofBrackets cs
  else
    match Utf8.decode? (Percent.decode (cs.flatMap Utf8.encodeChar)) with
    | none => .error .internationalName
    | some decoded =>
      match asciiDomain? decoded.toList with
      | none => .error .internationalName
      | some [] => .error .emptyHost
      | some domain =>
        if endsInNumber domain then
          match v4? domain with
          | some address => .ok (.v4 address)
          | none => .error .invalidV4
        else .ok (.name (String.ofList domain))

def ofOpaque (cs : List Char) : Except UrlError Host :=
  if cs.head? = some '[' then ofBrackets cs
  else if cs.any isForbiddenInOpaque then .error .invalidCharacter
  else .ok (.name (Percent.encode .opaqueText cs))

end Host

end Enrollment
