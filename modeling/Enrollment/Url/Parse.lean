import Enrollment.Json.Reader
import Enrollment.Url.Basic

/-! # Reading URLs

Tabs and line ends count nowhere in a URL, blanks and controls not at its ends. A special scheme
treats a backslash as a slash and needs a host. Without a scheme a text is a reference, which needs
a base.
-/

namespace Enrollment

namespace Url

def isEdge (c : Char) : Bool := c.toNat ≤ 0x20

def isRemoved (c : Char) : Bool := c = '\t' || c = '\n' || c = '\r'

def clean (s : String) : List Char :=
  (Text.trimBy isEdge s.toList).filter (!isRemoved ·)

def isSchemeChar (c : Char) : Bool := c.isAlphanum || c = '+' || c = '-' || c = '.'

/-- The scheme in lower case and what follows its colon. -/
def splitScheme? (cs : List Char) : Option (String × List Char) :=
  match cs with
  | [] => none
  | c :: _ =>
    if c.isAlpha then
      match cs.dropWhile isSchemeChar with
      | ':' :: rest => some (String.ofList ((cs.takeWhile isSchemeChar).map Char.toLower), rest)
      | _ => none
    else none

def isSlash (special : Bool) (c : Char) : Bool := c = '/' || (special && c = '\\')

def endsAuthority (special : Bool) (c : Char) : Bool :=
  isSlash special c || c = '?' || c = '#'

/-- Query and fragment. -/
def readTail (special : Bool) (cs : List Char) : Option String × Option String :=
  let fragmentOf (cs : List Char) : Option String :=
    match cs with
    | '#' :: rest => some (Percent.encode .fragment rest)
    | _ => none
  match cs with
  | '?' :: rest =>
    let part := if special then .specialQuery else .query
    (some (Percent.encode part (rest.takeWhile (· ≠ '#'))),
      fragmentOf (rest.dropWhile (· ≠ '#')))
  | _ => (none, fragmentOf cs)

def isTail (c : Char) : Bool := c = '?' || c = '#'

def isDoubleDot (segment : String) : Bool :=
  ["..", "%2e%2e", ".%2e", "%2e."].contains (Text.lower segment)

def isSingleDot (segment : String) : Bool := [".", "%2e"].contains (Text.lower segment)

/-- Adds a segment to the segments before it, newest first; dots are resolved. Only a segment that
ends the path leaves an empty one behind in place of its dots. -/
def addSegment (before : List String) (segment : String) (last : Bool) : List String :=
  if isDoubleDot segment then
    if last then "" :: before.drop 1 else before.drop 1
  else if isSingleDot segment then
    if last then "" :: before else before
  else segment :: before

def addSegments (before : List String) : List String → List String
  | [] => before
  | [segment] => addSegment before segment true
  | segment :: segments => addSegments (addSegment before segment false) segments

/-- The pieces between separators. -/
def splitBy (p : Char → Bool) : List Char → List (List Char)
  | [] => [[]]
  | c :: cs =>
    if p c then [] :: splitBy p cs
    else match splitBy p cs with
      | [] => [[c]]
      | piece :: pieces => (c :: piece) :: pieces

/-- Reads path segments after a slash, on top of the segments before them. -/
def readSegments (special : Bool) (before : List String) (cs : List Char) : List String :=
  let pieces := (splitBy (isSlash special) cs).map (Percent.encode .path)
  (addSegments before.reverse pieces).reverse

structure Userinfo where
  username : String
  password : Option String

def readUserinfo (cs : List Char) : Userinfo :=
  let username := Percent.encode .userinfo (cs.takeWhile (· ≠ ':'))
  match cs.dropWhile (· ≠ ':') with
  | _ :: password@(_ :: _) => ⟨username, some (Percent.encode .userinfo password)⟩
  | _ => ⟨username, none⟩

/-- Splits at the last at-sign of the authority. -/
def splitUserinfo (special : Bool) (cs : List Char) :
    Except UrlError (Option (List Char) × List Char) :=
  let authority := cs.takeWhile (!endsAuthority special ·)
  let rest := cs.dropWhile (!endsAuthority special ·)
  let hostPart := (authority.reverse.takeWhile (· ≠ '@')).reverse
  if hostPart.length = authority.length then .ok (none, cs)
  else
    let user := authority.take (authority.length - hostPart.length - 1)
    if user = [] ∧ hostPart = [] ∧ rest ≠ [] then .error .emptyHost
    else .ok (some user, hostPart ++ rest)

/-- The host ends at a colon outside brackets. -/
def splitHost (special : Bool) : Bool → List Char → List Char × List Char
  | _, [] => ([], [])
  | inside, c :: cs =>
    if endsAuthority special c ∨ (c = ':' ∧ ¬inside) then ([], c :: cs)
    else
      let inside := if c = '[' then true else if c = ']' then false else inside
      let (host, rest) := splitHost special inside cs
      (c :: host, rest)

def readPort (scheme : String) (cs : List Char) : Except UrlError (Option Nat × List Char) :=
  let digits := cs.takeWhile Char.isDigit
  let rest := cs.dropWhile Char.isDigit
  let port := Network.digitsValue 10 digits
  let ended : Bool := match rest with
    | [] => true
    | c :: _ => c = '/' || c = '\\' || c = '?' || c = '#'
  if 65535 < port ∨ ended = false then .error .invalidPort
  else if digits = [] ∨ defaultPort? scheme = some port then .ok (none, rest)
  else .ok (some port, rest)

def readHost (special : Bool) (cs : List Char) : Except UrlError Host :=
  if special then
    if cs = [] then .error .emptyHost else Host.ofDomain cs
  else Host.ofOpaque cs

/-- Reads what follows the two slashes of an authority. -/
def readAuthority (scheme : String) (cs : List Char) : Except UrlError Url := do
  let special := isSpecial scheme
  let (user, cs) ← splitUserinfo special cs
  let (hostText, rest) := splitHost special false cs
  let host ← readHost special hostText
  if host = .name "" then
    if rest.head? = some ':' ∨ special then throw .emptyHost
  let (port, rest) ← match rest with
    | ':' :: digits => readPort scheme digits
    | _ => pure (none, rest)
  let info := (user.map readUserinfo).getD ⟨"", none⟩
  if host = .name "" ∧ (info.username ≠ "" ∨ info.password.isSome) then throw .emptyHost
  let pathText := rest.takeWhile (!isTail ·)
  let segments :=
    match pathText with
    | [] => if special then [""] else []
    | c :: after =>
      if isSlash special c then readSegments special [] after
      else readSegments special [] pathText
  let (query, fragment) := readTail special (rest.dropWhile (!isTail ·))
  return { scheme, authority := some ⟨info.username, info.password, host, port⟩,
           path := .segments segments, query, fragment }

def isDriveLetter (cs : List Char) : Bool :=
  match cs with
  | [c, bar] => c.isAlpha && (bar = ':' || bar = '|')
  | _ => false

/-- The path of a file. A drive letter in front is written with a colon, and no dots remove it;
otherwise there are no empty segments at the front. -/
def filePath (cs : List Char) : List String :=
  match (splitBy (isSlash true) cs).map (Percent.encode .path) with
  | [] => [""]
  | first :: rest =>
    if isDriveLetter first.toList then
      String.ofList [first.toList.headD 'a', ':'] :: (addSegments [] rest).reverse
    else
      match (addSegments [] (first :: rest)).reverse.dropWhile (· = "") with
      | [] => [""]
      | segments => segments

def readFile (cs : List Char) : Except UrlError Url := do
  let isTailOrSlash (c : Char) : Bool := endsAuthority true c
  let (hostText, rest) :=
    match cs with
    | a :: b :: after =>
      if isSlash true a ∧ isSlash true b then
        let text := after.takeWhile (!isTailOrSlash ·)
        if isDriveLetter text then ([], after) else (text, after.dropWhile (!isTailOrSlash ·))
      else ([], cs)
    | _ => ([], cs)
  let host ← if hostText = [] then pure (Host.name "") else Host.ofDomain hostText
  let host := if host = .name "localhost" then .name "" else host
  let pathText := rest.takeWhile (!isTail ·)
  let pathText := if pathText.head?.any (isSlash true) then pathText.drop 1 else pathText
  let segments := filePath pathText
  let (query, fragment) := readTail true (rest.dropWhile (!isTail ·))
  return { scheme := "file", authority := some ⟨"", none, host, none⟩,
           path := .segments segments, query, fragment }

/-- A scheme without authority: a path from the root, or an opaque one. -/
def readPlain (scheme : String) (cs : List Char) : Url :=
  let pathText := cs.takeWhile (!isTail ·)
  let path :=
    match pathText with
    | '/' :: after => .segments (readSegments false [] after)
    | _ => .opaqueText (Percent.encode .opaqueText pathText)
  let (query, fragment) := readTail false (cs.dropWhile (!isTail ·))
  { scheme, authority := none, path, query, fragment }

def segmentsOf (url : Url) : List String :=
  match url.path with
  | .segments segments => segments
  | .opaqueText _ => []

/-- Reads a reference against a base with a path of segments. -/
def readRelative (base : Url) (cs : List Char) : Except UrlError Url :=
  let special := isSpecial base.scheme
  let rooted (before : List String) (cs : List Char) : Url :=
    let pathText := cs.takeWhile (!isTail ·)
    let (query, fragment) := readTail special (cs.dropWhile (!isTail ·))
    { base with path := .segments (readSegments special before pathText), query, fragment }
  match cs with
  | [] => .ok { base with fragment := none }
  | '#' :: rest => .ok { base with fragment := some (Percent.encode .fragment rest) }
  | '?' :: _ =>
    let (query, fragment) := readTail special cs
    .ok { base with query, fragment }
  | c :: rest =>
    if c = '/' ∨ c = '\\' then
      match rest with
      | d :: after =>
        if d = '/' ∨ d = '\\' then
          if c = '/' ∧ d = '/' then readAuthority base.scheme after
          else readAuthority base.scheme (cs.dropWhile fun x => x = '/' || x = '\\')
        else .ok (rooted [] rest)
      | [] => .ok (rooted [] rest)
    else .ok (rooted base.segmentsOf.dropLast cs)

def readScheme (base : Option Url) (scheme : String) (cs : List Char) : Except UrlError Url :=
  if scheme = "file" then readFile cs
  else if isSpecial scheme then
    let slash (c : Char) : Bool := c = '/' || c = '\\'
    match base with
    | some base =>
      if (cs.takeWhile slash).length < 2 ∧ base.scheme = scheme then readRelative base cs
      else readAuthority scheme (cs.dropWhile slash)
    | none => readAuthority scheme (cs.dropWhile slash)
  else
    match cs with
    | '/' :: '/' :: after => readAuthority scheme after
    | _ => .ok (readPlain scheme cs)

def parse (s : String) : Except UrlError Url :=
  match splitScheme? (clean s) with
  | some (scheme, rest) => readScheme none scheme rest
  | none => .error .relativeWithoutBase

/-- Resolves a reference against a base. -/
def join (base : Url) (reference : String) : Except UrlError Url :=
  let cs := clean reference
  match splitScheme? cs with
  | some (scheme, rest) => readScheme (some base) scheme rest
  | none =>
    match base.path, cs with
    | _, '#' :: rest => .ok { base with fragment := some (Percent.encode .fragment rest) }
    | .opaqueText _, _ => .error .relativeWithOpaqueBase
    | .segments _, _ => readRelative base cs

/-- Reads the texts of a document that are URLs. -/
def reader : Json.Reader Url :=
  Json.Reader.textAs "a string representing an URL" fun s =>
    match parse s with
    | .ok url => .ok url
    | .error e => .error (.refused (e.message ++ ": " ++ Text.quoted s))

end Url

end Enrollment
