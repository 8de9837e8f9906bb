import Enrollment.Challenge.Provider
import Enrollment.Text.Blank

/-! # Proofs on the web

The answers to challenges that a web server shows under a well-known path, by token.
-/

namespace Enrollment

structure WebProofs where
  answers : Keyed String String
  deriving DecidableEq, Repr

namespace WebProofs

def empty : WebProofs := ⟨.empty⟩

def provision (proofs : WebProofs) (proof : Proof) : Except ProviderError WebProofs :=
  match KeyAuthorization.ofKey proof.token proof.key with
  | .error e => .error (.keyAuthorization e)
  | .ok authorization => .ok ⟨proofs.answers.put proof.token authorization.value⟩

def deprovision (proofs : WebProofs) (proof : Proof) : WebProofs :=
  ⟨proofs.answers.erase proof.token⟩

def answer? (proofs : WebProofs) (token : String) : Option String := proofs.answers.get? token

/-- The body that is shown under a path. -/
def respond? (proofs : WebProofs) (path : String) : Option String :=
  (Text.stripStart? KeyAuthorization.wellKnownPath path).bind proofs.answer?

def size (proofs : WebProofs) : Nat := proofs.answers.size

end WebProofs

end Enrollment
