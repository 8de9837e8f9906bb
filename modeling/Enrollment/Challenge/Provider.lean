import Enrollment.Authorization
import Enrollment.Keyed
import Enrollment.KeyAuthorization
import Enrollment.Text.Quoted

/-! # Methods and providers

How challenges of a kind are answered. The name of a method alone tells which provider shows the
proof for a challenge and takes it away again.
-/

namespace Enrollment

structure ChallengeMethod where
  id : String
  kind : ChallengeKind
  deriving DecidableEq, Repr

namespace ChallengeMethod

/-- Proof over the web, shown by the process itself. -/
def webInternal : ChallengeMethod := ⟨"http-01-internal", .http01⟩

def print (method : ChallengeMethod) : String :=
  method.id ++ " (" ++ method.kind.name ++ ")"

end ChallengeMethod

inductive ProviderError where
  | keyAuthorization (cause : KeyAuthorizationError)
  | backend (provider reason : String)
  deriving DecidableEq, Repr

def ProviderError.message : ProviderError → String
  | .keyAuthorization cause => "key authorization hazırlanamadı: " ++ cause.message
  | .backend provider reason => provider ++ " sağlayıcısı işlemi tamamlayamadı: " ++ reason

/-- What a provider is asked to show: the answer of a key to the token of a challenge. -/
structure Proof where
  identifier : Identifier
  token : String
  key : AccountKey
  deriving DecidableEq, Repr

structure Providers (P : Type) where
  byId : Keyed String P
  deriving DecidableEq, Repr

namespace Providers

variable {P : Type}

def empty : Providers P := ⟨.empty⟩

/-- A provider takes the place of an earlier one for a method of the same name. -/
def register (providers : Providers P) (method : ChallengeMethod) (provider : P) : Providers P :=
  ⟨providers.byId.put method.id provider⟩

def get? (providers : Providers P) (method : ChallengeMethod) : Option P :=
  providers.byId.get? method.id

def size (providers : Providers P) : Nat := providers.byId.size

def ids (providers : Providers P) : List String := providers.byId.keys.mergeSort fun a b => a ≤ b

def describe (providers : Providers P) : String :=
  "ChallengeProviders \x7b methods: [" ++
    ", ".intercalate (providers.ids.map Text.quoted) ++ "] \x7d"

end Providers

end Enrollment
