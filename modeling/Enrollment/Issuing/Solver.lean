import Enrollment.Issuing.Call

/-! # Solving challenges

A proof is shown, the server is told, and the challenge is read again until it is settled. Once the
provider is found the proof is taken away on every way out, and nothing that goes wrong there
changes the outcome.
-/

namespace Enrollment

/-- How often, and how many times, a server is asked again for something that it still works on. -/
structure Polling where
  attempts : Nat
  /-- Milliseconds before each attempt. -/
  interval : Nat
  deriving DecidableEq, Repr

namespace Polling

def ofSeconds (attempts seconds : Nat) : Polling := ⟨attempts, seconds * 1000⟩

def defaultAttempts : Nat := 5

def defaultSeconds : Nat := 20

def default : Polling := .ofSeconds defaultAttempts defaultSeconds

end Polling

/-- The methods that have a provider, and how a challenge is polled. -/
structure Solver where
  methods : List String
  polling : Polling

/-- A challenge that is to be solved. -/
structure SolverTask where
  challenge : Challenge
  method : ChallengeMethod
  proof : Proof
  environment : Environment

namespace Solver

open IssuerCall

def isSettled : ChallengeStatus → Bool
  | .valid | .invalid => true
  | .pending | .processing => false

/-- The last challenge of a kind. -/
def lastOf? (kind : ChallengeKind) (challenges : List Challenge) : Option Challenge :=
  challenges.reverse.find? (·.kind = kind)

def select (solver : Solver) (identifier : Identifier) (challenges : List Challenge)
    (method : ChallengeMethod) (key : AccountKey) (environment : Environment) :
    Except SolveError SolverTask :=
  match lastOf? method.kind challenges with
  | none => .error (.noChallenge method.kind.name)
  | some challenge =>
    match challenge.token with
    | none => .error .missingToken
    | some token =>
      if solver.methods.contains method.id then
        .ok { challenge, method, proof := ⟨identifier, token, key⟩, environment }
      else .error (.noProvider method.id)

variable (solver : Solver) (task : SolverTask)

def askService (request : ServiceRequest) : Attempt SolveError request.Result :=
  .ofWork (.ask (service task.environment request task.proof.key)) .service

/-- Reads the challenge again until it is settled, at most so many times. -/
def poll : Nat → Attempt SolveError ChallengeStatus
  | 0 => throw (.unsettled solver.polling.attempts)
  | attempts + 1 => do
    match ← ExceptT.lift (.ask (wait solver.polling.interval)) with
    | .shutdown => throw .shutdown
    | .elapsed =>
      let current ← askService task (.challenge task.challenge.url)
      if isSettled current.status then return current.status
      poll attempts

def provisionAndPoll : Attempt SolveError ChallengeStatus := do
  .ofWork (.ask (provision task.method task.proof)) .provision
  let _ ← askService task (.validation task.challenge.url)
  solver.poll task solver.polling.attempts

def takeAway : Work Unit := do
  match ← .ask (deprovision task.method task.proof) with
  | .ok () => return
  | .error _ => .ask (notify .proofKept)

def solveTask : Work (Except SolveError ChallengeStatus) := do
  let outcome ← (solver.provisionAndPoll task).run
  takeAway task
  match outcome with
  | .ok _ => return outcome
  | .error _ =>
    .ask (notify .challengeUnsolved)
    return outcome

/-- Solves the challenge of a method's kind. A challenge that ends up invalid is settled too. -/
def solve (identifier : Identifier) (challenges : List Challenge) (method : ChallengeMethod)
    (key : AccountKey) (environment : Environment) : Work (Except SolveError ChallengeStatus) :=
  match solver.select identifier challenges method key environment with
  | .error e => return .error e
  | .ok task => solver.solveTask task

end Solver

end Enrollment
