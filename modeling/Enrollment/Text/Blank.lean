/-! # White space

The characters with the Unicode property White_Space, and trimming by it.
-/

namespace Enrollment

namespace Text

def isBlank (c : Char) : Bool :=
  let n := c.toNat
  (9 ≤ n && n ≤ 13) || n == 0x20 || n == 0x85 || n == 0xA0 || n == 0x1680 ||
    (0x2000 ≤ n && n ≤ 0x200A) || n == 0x2028 || n == 0x2029 || n == 0x202F ||
    n == 0x205F || n == 0x3000

def trimEndBy (p : Char → Bool) (cs : List Char) : List Char :=
  (cs.reverse.dropWhile p).reverse

def trimBy (p : Char → Bool) (cs : List Char) : List Char :=
  trimEndBy p (cs.dropWhile p)

/-- Removes white space at both ends. -/
def trim (s : String) : String :=
  String.ofList (trimBy isBlank s.toList)

def lower (s : String) : String :=
  String.ofList (s.toList.map Char.toLower)

/-- The pieces between occurrences of `sep`; one piece more than there are occurrences. -/
def split (sep : Char) : List Char → List (List Char)
  | [] => [[]]
  | c :: cs =>
    if c = sep then [] :: split sep cs
    else match split sep cs with
      | [] => [[c]]
      | piece :: pieces => (c :: piece) :: pieces

def startsWith (start s : String) : Bool := start.toList.isPrefixOf s.toList

def stripStart? (start s : String) : Option String :=
  if startsWith start s then some (String.ofList (s.toList.drop start.toList.length)) else none

def endsWith (tail s : String) : Bool := tail.toList.isSuffixOf s.toList

end Text

end Enrollment
