import Enrollment.Rehearsal.Crew

/-! # Rehearsing the fulfilment of authorizations

Several calls come at set times, and may meet at the same authorizations.
-/

namespace Enrollment.Rehearsal

inductive FulfillCall where
  | all (tasks : List AuthorizationTask)
  | single (task : AuthorizationTask)
  | probe

inductive FulfillEnd where
  | finished (time : Nat) (result : Except FulfillError AuthorizationStatus)
  | broke
  | seen (inFlight : Nat)

namespace Fulfilling

structure State where
  world : World
  /-- How calls ended, by their places. -/
  ends : List (Nat × FulfillEnd)

inductive Thread where
  | crew (crew : Crew)
  | coming (place time : Nat) (call : FulfillCall)
  | all (place : Nat) (running : Running (Except FulfillError AuthorizationStatus))
  | single (place : Nat) (run : FlightRun AuthorizationStatus FulfillError)

def State.record (state : State) (place : Nat) (ending : FulfillEnd) : State :=
  { state with ends := state.ends ++ [(place, ending)] }

def goOn (state : State) (world : World) (thread : Thread) (starting : Option Starting) :
    Turn State Thread :=
  .moved { state with world } thread ((world.taskThreads starting).map .crew)

def begin (state : State) (place : Nat) : FulfillCall → Turn State Thread
  | .all tasks => .moved state (.all place (.going (Authorizations.fulfill tasks))) []
  | .single task =>
    let (fulfiller, caller) := state.world.fulfiller.call task
    let world := { state.world with fulfiller }
    .moved { state with world } (.single place (world.taskRun task caller)) []
  | .probe => .ended (state.record place (.seen state.world.fulfiller.size))

def turn (now : Nat) : Thread → State → Turn State Thread
  | .crew crew, state =>
    (crew.turn now state.world).within (fun world => { state with world }) .crew
  | .coming place time call, state =>
    if time ≤ now then begin state place call else .waits (some time)
  | .all place running, state =>
    match running.step now state.world with
    | .moved world running starting => goOn state world (.all place running) starting
    | .waits until? => .waits until?
    | .ended result => .ended (state.record place (.finished now result))
    | .broke => .ended (state.record place .broke)
  | .single place run, state =>
    match run.step authorizationPlace now state.world with
    | .moved world run starting => goOn state world (.single place run) starting
    | .waits until? => .waits until?
    | .ended (some result) => .ended (state.record place (.finished now result))
    | .ended none => .ended (state.record place .broke)

end Fulfilling

/-- Lets calls come at their times, and gives what is left when all have ended. -/
def rehearseFulfilments (world : World) (cancelAt : Option Nat)
    (calls : List (Nat × FulfillCall)) : Fulfilling.State :=
  let signal := cancelAt.map fun time => Fulfilling.Thread.crew (.signal time)
  let threads := calls.mapIdx fun place (time, call) => Fulfilling.Thread.coming place time call
  Timeline.play Fulfilling.turn ⟨world, []⟩ (signal.toList ++ threads)

end Enrollment.Rehearsal
