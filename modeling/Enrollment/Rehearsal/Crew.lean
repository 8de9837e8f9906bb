import Enrollment.Rehearsal.World

/-! # The crew

The threads that work in the background of a rehearsal: tasks on authorizations, workers on orders,
the daily renewal, and the one that signals shutdown.
-/

namespace Enrollment.Rehearsal

inductive Crew where
  | signal (time : Nat)
  | task (group : Nat) (run : FlightRun AuthorizationStatus FulfillError)
  | worker (place : Nat) (job : Option (FlightRun Outcome JobError))
  | renewal (schedule : RenewalSchedule) (running : Running (Option Calendar.Instant))

abbrev CrewTurn := Turn World Crew

/-- The threads for a group of tasks. -/
def World.taskThreads (world : World) : Option Starting → List Crew
  | none => []
  | some ⟨group, tasks⟩ => tasks.map fun (task, caller) => .task group (world.taskRun task caller)

namespace Crew

def goOn (world : World) (crew : Crew) (starting : Option Starting) : CrewTurn :=
  .moved world crew (world.taskThreads starting)

def taskTurn (now : Nat) (world : World) (group : Nat)
    (run : FlightRun AuthorizationStatus FulfillError) : CrewTurn :=
  match run.step authorizationPlace now world with
  | .moved world run starting => goOn world (.task group run) starting
  | .waits until? => .waits until?
  | .ended _ =>
    let fulfiller := (world.fulfiller.leave? group run.caller).getD world.fulfiller
    .ended { world with fulfiller }

def workerMove (world : World) (place : Nat) (move : Workforce.Move)
    (job : Option (FlightRun Outcome JobError)) : CrewTurn :=
  match world.work? move with
  | some world => .moved world (.worker place job) []
  | none => .waits none

/-- The turn of a worker with an order: the tracker runs it, and its ticket gets the result. -/
def jobTurn (now : Nat) (world : World) (place : Nat) (order : Int) :
    Option (FlightRun Outcome JobError) → CrewTurn
  | none =>
    let caller := world.workforce.tracker.callers.length
    workerMove world place (.call place)
      (some ⟨caller, Job.process world.orderPolling order, none⟩)
  | some run =>
    match run.step orderPlace now world with
    | .moved world run starting => goOn world (.worker place (some run)) starting
    | .waits until? => .waits until?
    | .ended none => workerMove world place (.break place) none
    | .ended (some (.ok _)) => workerMove world place (.answer place) none
    | .ended (some (.error _)) => workerMove (world.tell .jobFailed) place (.answer place) none

def workerTurn (now : Nat) (world : World) (place : Nat)
    (job : Option (FlightRun Outcome JobError)) : CrewTurn :=
  match world.workforce.dispatch.workers[place]? with
  | some .idle => workerMove world place (.look place) none
  | some .looking => workerMove world place (.take place) none
  | some (.busy entry) => jobTurn now world place entry.order job
  | some .stopped | some .broken | none => .ended world

def renewalTurn (now : Nat) (world : World) (schedule : RenewalSchedule)
    (running : Running (Option Calendar.Instant)) : CrewTurn :=
  match running.step now world with
  | .moved world running starting => goOn world (.renewal schedule running) starting
  | .waits until? => .waits until?
  | .ended (some next) =>
    .moved world (.renewal schedule (.going (Renewal.round schedule next))) []
  | .ended none => .ended { world with renewing := false }
  | .broke => .ended { world with renewing := false, renewalBroke := true }

def turn (now : Nat) : Crew → World → CrewTurn
  | .signal time, world =>
    if time ≤ now then .ended world.signalShutdown else .waits (some time)
  | .task group run, world => taskTurn now world group run
  | .worker place job, world => workerTurn now world place job
  | .renewal schedule running, world => renewalTurn now world schedule running

end Crew

/-- A turn of the crew among other threads, in a larger world. -/
def CrewTurn.within {W T : Type} (put : World → W) (thread : Crew → T) : CrewTurn → Turn W T
  | .moved world crew started => .moved (put world) (thread crew) (started.map thread)
  | .waits until? => .waits until?
  | .ended world => .ended (put world)

end Enrollment.Rehearsal
