import Enrollment.Issuing.Solver
import Enrollment.Proofs.Procedure.Completion

/-! # Runs of the solver

The complete runs of the solver, put together as the solver is: rounds of polling, all that is done
while a proof is shown, and what follows when it is taken away.
-/

namespace Enrollment

/-- The parts that calls play in the solving of a challenge. -/
inductive SolverPart where
  | provision
  | deprovision
  | validation
  | reading
  | wait
  | notice
  deriving DecidableEq

def IssuerCall.solverPart? : IssuerCall → Option SolverPart
  | .provision _ _ => some .provision
  | .deprovision _ _ => some .deprovision
  | .service _ (.validation _) _ => some .validation
  | .service _ (.challenge _) _ => some .reading
  | .wait _ => some .wait
  | .notify _ => some .notice
  | _ => none

namespace SolverTask

variable (task : SolverTask)

def provisioned (answer : Except ProviderError Unit) : Turn IssuerCall.Answer :=
  ⟨.provision task.method task.proof, answer⟩

def deprovisioned (answer : Except ProviderError Unit) : Turn IssuerCall.Answer :=
  ⟨.deprovision task.method task.proof, answer⟩

def validated (answer : Except ClientError Challenge) : Turn IssuerCall.Answer :=
  ⟨.service task.environment (.validation task.challenge.url) task.proof.key, answer⟩

def read (answer : Except ClientError Challenge) : Turn IssuerCall.Answer :=
  ⟨.service task.environment (.challenge task.challenge.url) task.proof.key, answer⟩

end SolverTask

namespace Solver

open Procedure

abbrev Trace := List (Turn IssuerCall.Answer)

variable (solver : Solver) (task : SolverTask)

def waited (answer : Waited) : Turn IssuerCall.Answer := ⟨.wait solver.polling.interval, answer⟩

/-- Rounds of polling, so many at most, and what they come to. -/
inductive Polled : Nat → Trace → Except SolveError ChallengeStatus → Prop where
  | exhausted : Polled 0 [] (.error (.unsettled solver.polling.attempts))
  | shutdown (left : Nat) : Polled (left + 1) [solver.waited .shutdown] (.error .shutdown)
  | failed (left : Nat) (e : ClientError) :
    Polled (left + 1) [solver.waited .elapsed, task.read (.error e)] (.error (.service e))
  | settled (left : Nat) (current : Challenge) (h : isSettled current.status = true) :
    Polled (left + 1) [solver.waited .elapsed, task.read (.ok current)] (.ok current.status)
  | again {left : Nat} {current : Challenge} {later : Trace}
    {result : Except SolveError ChallengeStatus} (h : isSettled current.status = false)
    (hLater : Polled left later result) :
    Polled (left + 1) (solver.waited .elapsed :: task.read (.ok current) :: later) result

/-- What is done while a proof is shown, and what it comes to. -/
inductive Shown : Trace → Except SolveError ChallengeStatus → Prop where
  | refused (e : ProviderError) : Shown [task.provisioned (.error e)] (.error (.provision e))
  | failed (e : ClientError) :
    Shown [task.provisioned (.ok ()), task.validated (.error e)] (.error (.service e))
  | polled {current : Challenge} {later : Trace} {result : Except SolveError ChallengeStatus}
    (h : solver.Polled task solver.polling.attempts later result) :
    Shown (task.provisioned (.ok ()) :: task.validated (.ok current) :: later) result

/-- What is said when a proof could not be taken away. -/
def kept : Except ProviderError Unit → Trace
  | .ok () => []
  | .error _ => [⟨.notify .proofKept, ()⟩]

def unsolved : Except SolveError ChallengeStatus → Trace
  | .ok _ => []
  | .error _ => [⟨.notify .challengeUnsolved, ()⟩]

section

variable {solver : Solver} {task : SolverTask} {trace : Trace}
  {result : Except SolveError ChallengeStatus}

theorem polled_of_runs {left : Nat} (run : Runs (solver.poll task left).run trace result) :
    solver.Polled task left trace result := by
  induction left generalizing trace with
  | zero =>
    obtain ⟨rfl, rfl⟩ := runs_done_iff.mp run
    exact .exhausted
  | succ left ih =>
    obtain ⟨waited, rest, rfl, hRest⟩ := runs_call_iff.mp run
    cases waited with
    | shutdown =>
      obtain ⟨rfl, rfl⟩ := runs_done_iff.mp hRest
      exact .shutdown left
    | elapsed =>
      obtain ⟨answer, later, rfl, hLater⟩ := runs_call_iff.mp hRest
      cases answer with
      | error e =>
        obtain ⟨rfl, rfl⟩ := runs_done_iff.mp hLater
        exact .failed left e
      | ok current =>
        replace hLater : Runs (ExceptT.run (if isSettled current.status then
            return current.status else solver.poll task left)) later result := hLater
        split at hLater
        case isTrue h =>
          obtain ⟨rfl, rfl⟩ := runs_done_iff.mp hLater
          exact .settled left current h
        case isFalse h => exact .again (Bool.eq_false_iff.mpr h) (ih hLater)

theorem shown_of_runs (run : Runs (solver.provisionAndPoll task).run trace result) :
    solver.Shown task trace result := by
  obtain ⟨answer, rest, rfl, hRest⟩ := runs_call_iff.mp run
  cases answer with
  | error e =>
    obtain ⟨rfl, rfl⟩ := runs_done_iff.mp hRest
    exact .refused e
  | ok u =>
    obtain ⟨answer, later, rfl, hLater⟩ := runs_call_iff.mp hRest
    cases answer with
    | error e =>
      obtain ⟨rfl, rfl⟩ := runs_done_iff.mp hLater
      exact .failed e
    | ok current => exact .polled (polled_of_runs hLater)

theorem runs_takeAway_iff : Runs (takeAway task) trace () ↔
    ∃ answer, trace = task.deprovisioned answer :: kept answer := by
  constructor
  · intro run
    obtain ⟨answer, rest, rfl, hRest⟩ := runs_call_iff.mp run
    refine ⟨answer, ?_⟩
    cases answer with
    | ok u =>
      obtain ⟨rfl, -⟩ := runs_done_iff.mp hRest
      rfl
    | error e =>
      obtain ⟨_, rest, rfl, hDone⟩ := runs_call_iff.mp hRest
      obtain ⟨rfl, -⟩ := runs_done_iff.mp hDone
      rfl
  · rintro ⟨answer, rfl⟩
    cases answer with
    | ok u => exact .turn _ (.here _)
    | error e => exact .turn _ (.turn _ (.here _))

/-- What the solver comes to is settled before the proof is taken away. -/
theorem runs_solveTask_iff : Runs (solver.solveTask task) trace result ↔
    ∃ shown answer, trace = shown ++ task.deprovisioned answer :: (kept answer ++ unsolved result) ∧
      Runs (solver.provisionAndPoll task).run shown result := by
  constructor
  · intro run
    obtain ⟨shown, outcome, after, rfl, hShown, hAfter⟩ := runs_bind_iff.mp run
    obtain ⟨away, _, last, rfl, hAway, hLast⟩ := runs_bind_iff.mp hAfter
    obtain ⟨answer, rfl⟩ := runs_takeAway_iff.mp hAway
    cases outcome with
    | ok status =>
      obtain ⟨rfl, rfl⟩ := runs_done_iff.mp hLast
      exact ⟨shown, answer, rfl, hShown⟩
    | error e =>
      obtain ⟨_, rest, rfl, hDone⟩ := runs_call_iff.mp hLast
      obtain ⟨rfl, rfl⟩ := runs_done_iff.mp hDone
      exact ⟨shown, answer, rfl, hShown⟩
  · rintro ⟨shown, answer, rfl, hShown⟩
    refine runs_bind_iff.mpr ⟨shown, result, _, rfl, hShown, ?_⟩
    refine runs_bind_iff.mpr ⟨task.deprovisioned answer :: kept answer, (), _, rfl, ?_, ?_⟩
    · exact runs_takeAway_iff.mpr ⟨answer, rfl⟩
    · cases result with
      | ok status => exact .here _
      | error e => exact .turn _ (.here _)

end

end Solver

end Enrollment
