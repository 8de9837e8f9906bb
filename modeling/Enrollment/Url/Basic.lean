import Enrollment.Url.Host

/-! # URLs

A URL in its normal form, by its parts, and its text. A path is opaque or a list of segments; the
text of a path of segments starts with a slash.
-/

namespace Enrollment

inductive UrlPath where
  | opaqueText (s : String)
  | segments (segments : List String)
  deriving DecidableEq, Repr

structure Authority where
  username : String
  password : Option String
  host : Host
  port : Option Nat
  deriving DecidableEq, Repr

structure Url where
  scheme : String
  authority : Option Authority
  path : UrlPath
  query : Option String
  fragment : Option String
  deriving DecidableEq, Repr

namespace Url

/-- The port that a scheme implies. -/
def defaultPort? (scheme : String) : Option Nat :=
  [("http", 80), ("https", 443), ("ws", 80), ("wss", 443), ("ftp", 21)].lookup scheme

def isSpecial (scheme : String) : Bool := (defaultPort? scheme).isSome || scheme = "file"

end Url

def Authority.print (a : Authority) : String :=
  let user :=
    match a.password with
    | some password => a.username ++ ":" ++ password ++ "@"
    | none => if a.username = "" then "" else a.username ++ "@"
  let port := match a.port with
    | some port => ":" ++ toString port
    | none => ""
  user ++ a.host.print ++ port

def UrlPath.print : UrlPath → String
  | .opaqueText s => s
  | .segments names => String.join (names.map fun name => "/" ++ name)

namespace Url

def beforeQuery (url : Url) : String :=
  let path := url.path.print
  let rest := match url.authority with
    | some authority => "//" ++ authority.print ++ path
    | none => if Text.startsWith "//" path then "/." ++ path else path
  url.scheme ++ ":" ++ rest

def withoutFragment (url : Url) : String :=
  url.beforeQuery ++ match url.query with
    | some query => "?" ++ query
    | none => ""

def print (url : Url) : String :=
  url.withoutFragment ++ match url.fragment with
    | some fragment => "#" ++ fragment
    | none => ""

def host? (url : Url) : Option Host := url.authority.map (·.host)

end Url

end Enrollment
