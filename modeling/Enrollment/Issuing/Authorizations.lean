import Enrollment.Issuing.Solver

/-! # Fulfilling authorizations

Every authorization of an order is worked on by a task of its own, and all of them run to their
end. An order goes on only if every one of them is valid.
-/

namespace Enrollment.Authorizations

open IssuerCall

/-- The work on one authorization: a pending one is solved, any other is taken as it is. -/
def fulfillOne (solver : Solver) (task : AuthorizationTask) :
    Work (Except FulfillError AuthorizationStatus) := ExceptT.run do
  let authorization ← Attempt.ofWork
    (.ask (service task.environment (.authorization task.url) task.key)) FulfillError.service
  match authorization.status with
  | .pending =>
    let solved ← Attempt.ofWork
      (solver.solve authorization.identifier authorization.challenges task.method task.key
        task.environment) FulfillError.solve
    if solved = .valid then return .valid
    return .invalid
  | .unknown status => throw (.unknownStatus status)
  | status => return status

/-- What several authorizations come to. -/
def aggregate (statuses : List AuthorizationStatus) : Except FulfillError AuthorizationStatus :=
  if statuses.contains .pending then .error .stillPending
  else if statuses.all (· = .valid) then .ok .valid
  else .ok .invalid

/-- The result of a task that has ended. -/
def resultOf (ending : TaskEnd) : Except FulfillError AuthorizationStatus :=
  ending.getD (.error .task)

/-- The results of a group of tasks in the order in which they end. -/
def joinAll (group : Nat) : Nat → Work (List (Except FulfillError AuthorizationStatus))
  | 0 => return []
  | count + 1 => do
    let result := resultOf (← .ask (join group))
    if let .error _ := result then .ask (notify .authorizationUnfinished)
    return result :: (← joinAll group count)

/-- The first error, or else the values. -/
def firstError {ε α : Type} : List (Except ε α) → Except ε (List α)
  | [] => .ok []
  | .error e :: _ => .error e
  | .ok a :: results => (firstError results).map (a :: ·)

/-- Works on all authorizations at once. If some fail, the error of the first that ended so is the
result. -/
def fulfill (tasks : List AuthorizationTask) : Work (Except FulfillError AuthorizationStatus) := do
  let group ← .ask (start tasks)
  let results ← joinAll group tasks.length
  return (firstError results).bind aggregate

end Enrollment.Authorizations
