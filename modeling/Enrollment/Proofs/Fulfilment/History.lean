import Enrollment.Issuing.Fulfiller
import Enrollment.Proofs.Fulfilment.Results
import Enrollment.Proofs.SingleFlight.Results

/-! # Calls of a fulfiller

Calls for several authorizations and calls for one come to a fulfiller at any time, and the callers
of all their tasks, the groups and the calls go on in any order. A caller that does the work on a
task comes to a result of that work, or is broken off.
-/

namespace Enrollment

open Authorizations

/-- A call for several authorizations, with its group and the callers of its tasks once it has
started them, and what it has yet to do. -/
structure FulfillCall where
  tasks : List AuthorizationTask
  group? : Option Nat
  callers : List Nat
  rest : Work Result

structure Fulfilment where
  fulfiller : Fulfiller
  /-- The tasks of all callers of the fulfiller. -/
  tasks : List AuthorizationTask
  calls : List FulfillCall

namespace Fulfilment

def new : Fulfilment := ⟨.empty, [], []⟩

inductive Move where
  | all (tasks : List AuthorizationTask)
  | single (task : AuthorizationTask)
  | step (caller : Nat) (step : SingleFlight.Step AuthorizationStatus FulfillError)
  | leave (group caller : Nat)
  /-- A call for several authorizations goes on. -/
  | goOn (call : Nat)

def withCall (s : Fulfilment) (i : Nat) (call : FulfillCall) : Fulfilment :=
  { s with calls := s.calls.set i call }

def goOn? (s : Fulfilment) (i : Nat) (call : FulfillCall) : Option Fulfilment :=
  match call.rest with
  | .call (.start tasks) next =>
    let (fulfiller, group, callers) := s.fulfiller.start tasks
    let call := { call with group? := some group, callers, rest := next group }
    some ({ s with fulfiller, tasks := s.tasks ++ tasks }.withCall i call)
  | .call (.join group) next =>
    (s.fulfiller.join? group).map fun (ending, fulfiller) =>
      { s with fulfiller }.withCall i { call with rest := next ending }
  | .call (.notify _) next => some (s.withCall i { call with rest := next () })
  | _ => none

def move? (s : Fulfilment) : Move → Option Fulfilment
  | .all tasks => some { s with calls := s.calls ++ [⟨tasks, none, [], fulfill tasks⟩] }
  | .single task =>
    some { s with fulfiller := (s.fulfiller.call task).1, tasks := s.tasks ++ [task] }
  | .step caller step =>
    (s.fulfiller.step? caller step).map fun fulfiller => { s with fulfiller }
  | .leave group caller =>
    (s.fulfiller.leave? group caller).map fun fulfiller => { s with fulfiller }
  | .goOn i => s.calls[i]?.bind fun call => s.goOn? i call

/-- Whether work that ends comes to what the work on the caller's task can come to. -/
def Sound (solver : Solver) (s : Fulfilment) : Move → Prop
  | .step caller (.finish result) =>
    ∃ task, s.tasks[caller]? = some task ∧ IsResult solver task result
  | _ => True

inductive Reachable (solver : Solver) : Fulfilment → Prop where
  | new : Reachable solver new
  | move {s t : Fulfilment} (m : Move) (h : Reachable solver s) (sound : s.Sound solver m)
    (moves : s.move? m = some t) : Reachable solver t

/-! ### What a move can do -/

/-- All that a move can do. -/
inductive Change (s : Fulfilment) : Move → Fulfilment → Prop where
  | all (tasks : List AuthorizationTask) :
    Change s (.all tasks) { s with calls := s.calls ++ [⟨tasks, none, [], fulfill tasks⟩] }
  | single (task : AuthorizationTask) :
    Change s (.single task)
      { s with fulfiller := (s.fulfiller.call task).1, tasks := s.tasks ++ [task] }
  | stepped {caller : Nat} {step : SingleFlight.Step AuthorizationStatus FulfillError}
    {flights : AuthorizationFlights}
    (moves : s.fulfiller.flights.step? caller step = some flights) :
    Change s (.step caller step) { s with fulfiller := { s.fulfiller with flights } }
  | left {g caller : Nat} {group : TaskGroup} {ending : TaskEnd}
    (found : s.fulfiller.groups[g]? = some group)
    (ended : s.fulfiller.ending? caller = some ending) (mem : caller ∈ group.running) :
    Change s (.leave g caller) { s with
      fulfiller := s.fulfiller.withGroup g ⟨group.running.erase caller, group.ended ++ [ending]⟩ }
  | started {i : Nat} {call : FulfillCall} {tasks : List AuthorizationTask}
    {next : Nat → Work Result}
    (found : s.calls[i]? = some call) (rest : call.rest = .call (.start tasks) next) :
    Change s (.goOn i) ({ s with
      fulfiller := (s.fulfiller.start tasks).1
      tasks := s.tasks ++ tasks }.withCall i { call with
        group? := some s.fulfiller.groups.length
        callers := (s.fulfiller.start tasks).2.2
        rest := next s.fulfiller.groups.length })
  | joined {i g : Nat} {call : FulfillCall} {next : TaskEnd → Work Result} {running : List Nat}
    {ending : TaskEnd} {ended : List TaskEnd} (found : s.calls[i]? = some call)
    (rest : call.rest = .call (.join g) next)
    (group : s.fulfiller.groups[g]? = some ⟨running, ending :: ended⟩) :
    Change s (.goOn i) ({ s with
      fulfiller := s.fulfiller.withGroup g ⟨running, ended⟩ }.withCall i
        { call with rest := next ending })
  | notified {i : Nat} {call : FulfillCall} {notice : Notice} {next : Unit → Work Result}
    (found : s.calls[i]? = some call) (rest : call.rest = .call (.notify notice) next) :
    Change s (.goOn i) (s.withCall i { call with rest := next () })

variable {s t : Fulfilment} {m : Move}

theorem change_of_goOn? {i : Nat} {call : FulfillCall} (found : s.calls[i]? = some call)
    (moves : s.goOn? i call = some t) : Change s (.goOn i) t := by
  unfold goOn? at moves
  split at moves
  · next hRest =>
    cases moves
    exact .started found hRest
  · next g next hRest =>
    obtain ⟨⟨ending, fulfiller⟩, hJoin, rfl⟩ := Option.map_eq_some_iff.mp moves
    unfold Fulfiller.join? at hJoin
    split at hJoin
    · next hGroup =>
      cases hJoin
      exact .joined found hRest hGroup
    · cases hJoin
  · next hRest =>
    cases moves
    exact .notified found hRest
  · cases moves

theorem change_of_move? (moves : s.move? m = some t) : Change s m t := by
  cases m with
  | all tasks =>
    cases moves
    exact .all tasks
  | single task =>
    cases moves
    exact .single task
  | step caller step =>
    obtain ⟨fulfiller, hStep, rfl⟩ := Option.map_eq_some_iff.mp moves
    obtain ⟨flights, hMove, rfl⟩ := Option.map_eq_some_iff.mp hStep
    exact .stepped hMove
  | leave g caller =>
    obtain ⟨fulfiller, hLeave, rfl⟩ := Option.map_eq_some_iff.mp moves
    unfold Fulfiller.leave? at hLeave
    split at hLeave
    · next group ending found ended =>
      split at hLeave
      · next mem =>
        cases hLeave
        exact .left found ended mem
      · cases hLeave
    · cases hLeave
  | goOn i =>
    obtain ⟨call, found, moves⟩ := Option.bind_eq_some_iff.mp moves
    exact change_of_goOn? found moves

end Fulfilment

/-! ### The callers of tasks -/

/-- Where the results of callers come from: each caller calls for the URL of its task, and the work
that it has ended came to what the work on its task can come to. -/
structure Sourced (solver : Solver) (flights : AuthorizationFlights)
    (tasks : List AuthorizationTask) : Prop where
  keys : flights.callers.map SingleFlight.Caller.key = tasks.map AuthorizationTask.url
  told : ∃ past, SingleFlight.Run past flights ∧
    ∀ caller f result, .worked caller f (some result) ∈ past →
      ∃ task, tasks[caller]? = some task ∧ IsResult solver task result

namespace Sourced

variable {solver : Solver} {flights next : AuthorizationFlights} {tasks : List AuthorizationTask}

theorem length_eq (h : Sourced solver flights tasks) : flights.callers.length = tasks.length := by
  have hLengths := congrArg List.length h.keys
  rwa [List.length_map, List.length_map] at hLengths

theorem key_eq (h : Sourced solver flights tasks) {caller : Nat} {task : AuthorizationTask}
    {c : SingleFlight.Caller Url AuthorizationStatus FulfillError}
    (found : flights.callers[caller]? = some c) (hTask : tasks[caller]? = some task) :
    c.key = task.url := by
  have hKeys := congrArg (·[caller]?) h.keys
  simpa only [List.getElem?_map, found, hTask, Option.map_some, Option.some.injEq] using hKeys

theorem worksTo (h : Sourced solver flights tasks) : flights.WorksTo fun caller result =>
    ∃ task, tasks[caller]? = some task ∧ IsResult solver task result :=
  h.told

theorem call (h : Sourced solver flights tasks) (task : AuthorizationTask) :
    Sourced solver (flights.call task.url).1 (tasks ++ [task]) where
  keys := by
    rw [SingleFlight.call, List.map_append, List.map_append, h.keys]
    rfl
  told := by
    refine (h.worksTo.call task.url).mono ?_
    rintro caller result ⟨other, hTask, hResult⟩
    exact ⟨other, getElem?_append_of_some _ hTask, hResult⟩

theorem callAll (h : Sourced solver flights tasks) (more : List AuthorizationTask) :
    Sourced solver (flights.callAll (more.map AuthorizationTask.url)).1 (tasks ++ more) := by
  induction more generalizing flights tasks with
  | nil => rwa [List.append_nil]
  | cons task more ih =>
    rw [List.append_cons]
    exact ih (h.call task)

theorem step (h : Sourced solver flights tasks) {caller : Nat}
    {step : SingleFlight.Step AuthorizationStatus FulfillError}
    (sound : ∀ result, step = .finish result →
      ∃ task, tasks[caller]? = some task ∧ IsResult solver task result)
    (moves : flights.step? caller step = some next) : Sourced solver next tasks where
  keys := by
    obtain ⟨e, shows⟩ := SingleFlight.exists_event_of_step? moves
    rw [← h.keys]
    exact (SingleFlight.change_of_move? shows moves).keys_eq
      (SingleFlight.eq_of_event?_step shows).1
  told := h.worksTo.step sound moves

/-- What a task comes to is what the work on it comes to, or the work of another task for the same
URL that it has joined. An error is its own. -/
theorem of_returned (h : Sourced solver flights tasks) {caller : Nat} {task : AuthorizationTask}
    {result : Result} (hTask : tasks[caller]? = some task)
    (returned : flights.ending? caller = some (some result)) :
    ∃ other ∈ tasks, other.url = task.url ∧ IsResult solver other result ∧
      ∀ e, result = .error e → other = task := by
  obtain ⟨c, found, phase⟩ := SingleFlight.found_of_ending? returned
  obtain ⟨j, d, foundWorker, hKey, ⟨other, hOther, hResult⟩, own⟩ :=
    h.worksTo.of_returned found phase
  refine ⟨other, List.mem_of_getElem? hOther, ?_, hResult, ?_⟩
  · rw [← h.key_eq foundWorker hOther, hKey, h.key_eq found hTask]
  · intro e hError
    rw [own (.inr ⟨e, hError⟩), hTask] at hOther
    exact (Option.some.inj hOther).symm

end Sourced

end Enrollment
