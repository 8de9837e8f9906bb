import Enrollment.Issuing.Authorizations
import Enrollment.SingleFlight

/-! # The fulfiller

Tasks on authorizations join the flights of their URLs, so that those that come to the same
authorization share the work on it, for whatever orders they do it. The tasks that an order has
started are a group. A task that has ended leaves its end with its group, and ends are joined in the
order in which they have come.
-/

namespace Enrollment

abbrev AuthorizationFlights := SingleFlight Url AuthorizationStatus FulfillError

structure TaskGroup where
  /-- The callers whose ends have not come. -/
  running : List Nat
  /-- The ends that have not been joined, the first to come first. -/
  ended : List TaskEnd

structure Fulfiller where
  flights : AuthorizationFlights
  groups : List TaskGroup

namespace Fulfiller

def empty : Fulfiller := ⟨.empty, []⟩

def size (f : Fulfiller) : Nat := f.flights.size

/-- Calls for a task that no group waits for. -/
def call (f : Fulfiller) (task : AuthorizationTask) : Fulfiller × Nat :=
  let (flights, caller) := f.flights.call task.url
  ({ f with flights }, caller)

/-- Calls for the tasks of a new group, and gives its number with the callers. -/
def start (f : Fulfiller) (tasks : List AuthorizationTask) : Fulfiller × Nat × List Nat :=
  let (flights, callers) := f.flights.callAll (tasks.map AuthorizationTask.url)
  (⟨flights, f.groups ++ [⟨callers, []⟩]⟩, f.groups.length, callers)

def withGroup (f : Fulfiller) (i : Nat) (group : TaskGroup) : Fulfiller :=
  { f with groups := f.groups.set i group }

def step? (f : Fulfiller) (caller : Nat)
    (step : SingleFlight.Step AuthorizationStatus FulfillError) : Option Fulfiller :=
  (f.flights.step? caller step).map fun flights => { f with flights }

def ending? (f : Fulfiller) (caller : Nat) : Option TaskEnd := f.flights.ending? caller

/-- Leaves the end of a caller with its group. -/
def leave? (f : Fulfiller) (i caller : Nat) : Option Fulfiller :=
  match f.groups[i]?, f.ending? caller with
  | some group, some ending =>
    if caller ∈ group.running then
      some (f.withGroup i ⟨group.running.erase caller, group.ended ++ [ending]⟩)
    else none
  | _, _ => none

/-- The next end of a group. -/
def join? (f : Fulfiller) (i : Nat) : Option (TaskEnd × Fulfiller) :=
  match f.groups[i]? with
  | some ⟨running, ending :: ended⟩ => some (ending, f.withGroup i ⟨running, ended⟩)
  | _ => none

end Fulfiller

end Enrollment
