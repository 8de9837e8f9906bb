/-! # Environments

A certificate authority runs two servers: one for real certificates and one to try things out.
-/

namespace Enrollment

inductive Environment where
  | production
  | staging
  deriving DecidableEq, Repr

namespace Environment

def default : Environment := production

def ofStaging (staging : Bool) : Environment := if staging then .staging else .production

def isStaging : Environment → Bool
  | production => false
  | staging => true

def name : Environment → String
  | production => "production"
  | staging => "staging"

/-- Where each server's directory is found unless the settings say otherwise. -/
def directory : Environment → String
  | production => "https://acme-v02.api.letsencrypt.org/directory"
  | staging => "https://acme-staging-v02.api.letsencrypt.org/directory"

end Environment

/-- One thing for each environment. -/
structure PerEnvironment (α : Type) where
  production : α
  staging : α
  deriving DecidableEq, Repr

def PerEnvironment.get {α : Type} (both : PerEnvironment α) : Environment → α
  | .production => both.production
  | .staging => both.staging

end Enrollment
