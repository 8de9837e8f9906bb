import Enrollment.Issuing.Startup
import Enrollment.Rehearsal.Crew

/-! # Rehearsing orders

A visitor carries out actions one after another: orders are handed in, the issuer is looked at or
shut down. In the end all tickets are waited for, the inventory is given time to be scanned, and
what still runs is shut down.
-/

namespace Enrollment.Rehearsal

inductive Visit where
  | submit (order : Int) (priority : Priority)
  | place (certificate : Int) (priority : Priority)
  | probe
  | shutdown

inductive VisitReport where
  | accepted (time : Nat) (ticket : Job.Ticket)
  | rejected (time : Nat) (error : JobError)
  | probed (inProcess : Option Nat)
  | shutdown (time : Nat)
  | broke

namespace Ordering

structure State where
  world : World
  /-- How visits went, in their order. -/
  reports : List VisitReport
  /-- The times and results of the tickets that have ended. -/
  results : List (Nat × Nat × JobEnd)
  /-- Whether the issuer was shut down by a visit. -/
  shut : Bool
  inProcess : Option Nat
  ending : Option Nat

abbrev Visits := List (Nat × Visit)

inductive Phase where
  | visiting (visits : Visits)
  | handingIn (running : Running (Except JobError Job.Ticket)) (visits : Visits)
  | shuttingDown (visits : Visits)
  | awaiting
  /-- Lets hours pass, at most so many. -/
  | passing (hours : Nat)
  | pausing (hours time : Nat)
  | resting (time : Nat)
  | leaving

inductive Thread where
  | crew (crew : Crew)
  | visitor (wantedLoads : Option Nat) (phase : Phase)
  /-- Waits for the end of a ticket. -/
  | holder (ticket : Nat)

def hour : Nat := 3600000

def maxHours : Nat := 100

def restHours : Nat := 3

def State.report (state : State) (report : VisitReport) : State :=
  { state with reports := state.reports ++ [report] }

/-- Whether everything that was started has come to its end. -/
def State.isStill (state : State) : Bool :=
  state.world.workforce.dispatch.isClosed && !state.world.renewing

/-- Says of each thread that broke that it did. -/
def tellBroken (world : World) : World :=
  let count := world.workforce.dispatch.broken + (if world.renewalBroke then 1 else 0)
  (List.replicate count Notice.taskBroken).foldl World.tell world

def State.inProcessNow (state : State) : Option Nat :=
  if state.shut then none else some state.world.workforce.tracker.size

def goOn (wantedLoads : Option Nat) (state : State) (phase : Phase) (started : List Thread) :
    Turn State Thread :=
  .moved state (.visitor wantedLoads phase) started

def visit (now : Nat) (state : State) (visits : Visits) : Visit → State × Phase
  | .submit order priority =>
    (state, .handingIn (.going (Job.submit order priority).run) visits)
  | .place certificate priority =>
    (state, .handingIn (.going (Job.placeAndSubmit certificate priority).run) visits)
  | .probe => (state.report (.probed state.inProcessNow), .visiting visits)
  | .shutdown =>
    if state.shut then (state.report (.shutdown now), .visiting visits)
    else ({ state with world := state.world.signalShutdown, shut := true }, .shuttingDown visits)

def handIn (now : Nat) (wantedLoads : Option Nat) (state : State)
    (running : Running (Except JobError Job.Ticket)) (visits : Visits) : Turn State Thread :=
  match running.step now state.world with
  | .moved world running starting =>
    goOn wantedLoads { state with world } (.handingIn running visits)
      ((world.taskThreads starting).map .crew)
  | .waits until? => .waits until?
  | .ended (.ok ticket) =>
    goOn wantedLoads (state.report (.accepted now ticket)) (.visiting visits)
      [.holder ticket.number]
  | .ended (.error e) =>
    goOn wantedLoads (state.report (.rejected now e)) (.visiting visits) []
  | .broke => goOn wantedLoads (state.report .broke) (.visiting visits) []

def hasEnded (state : State) (report : VisitReport) : Bool :=
  match report with
  | .accepted _ ticket => state.results.any (·.1 = ticket.number)
  | _ => true

def visitorTurn (now : Nat) (wantedLoads : Option Nat) (state : State) :
    Phase → Turn State Thread
  | .visiting [] => goOn wantedLoads state .awaiting []
  | .visiting ((time, request) :: visits) =>
    if time ≤ now then
      let (state, phase) := visit now state visits request
      goOn wantedLoads state phase []
    else .waits (some time)
  | .handingIn running visits => handIn now wantedLoads state running visits
  | .shuttingDown visits =>
    if state.isStill then
      goOn wantedLoads ({ state with world := tellBroken state.world }.report (.shutdown now))
        (.visiting visits) []
    else .waits none
  | .awaiting =>
    if state.reports.all (hasEnded state) then
      match wantedLoads with
      | some _ => goOn wantedLoads state (.passing maxHours) []
      | none => goOn wantedLoads state (.resting now) []
    else .waits none
  | .passing hours =>
    if hours = 0 ∨ wantedLoads.all (· ≤ state.world.store.loads) then
      goOn wantedLoads state (.resting (now + restHours * hour)) []
    else goOn wantedLoads state (.pausing (hours - 1) (now + hour)) []
  | .pausing hours time =>
    if time ≤ now then goOn wantedLoads state (.passing hours) [] else .waits (some time)
  | .resting time =>
    if time ≤ now then
      let state := { state with inProcess := state.inProcessNow }
      goOn wantedLoads { state with world := state.world.signalShutdown } .leaving []
    else .waits (some time)
  | .leaving =>
    if state.isStill then
      let world := if state.shut then state.world else tellBroken state.world
      .ended { state with world, ending := some now }
    else .waits none

def turn (now : Nat) : Thread → State → Turn State Thread
  | .crew crew, state =>
    (crew.turn now state.world).within (fun world => { state with world }) .crew
  | .visitor wantedLoads phase, state => visitorTurn now wantedLoads state phase
  | .holder ticket, state =>
    match state.world.workforce.dispatch.ended.get? ticket with
    | some ending =>
      .ended { state with results := state.results ++ [(ticket, now, Job.resultOf ending)] }
    | none => .waits none

end Ordering

/-- Starts an issuer with its workers and its renewals, and lets it be visited. -/
def rehearseOrders (world : World) (settings : OrchestratorSettings) (cancelAt : Option Nat)
    (visits : List (Nat × Visit)) (wantedLoads : Option Nat) : Except StartFault Ordering.State := do
  let workforce ← settings.start
  let first := settings.renewal.bind fun schedule =>
    (schedule.time.nextAfter? world.beginning).map fun next => (schedule, next)
  let world := {
    world with workforce, orderPolling := settings.polling, renewing := first.isSome }
  let signal := cancelAt.map fun time => Crew.signal time
  let places := List.range workforce.dispatch.workers.length
  let workers := places.map fun place => Crew.worker place none
  let renewal := first.map fun (schedule, next) =>
    Crew.renewal schedule (.going (Renewal.round schedule next))
  let threads := signal.toList.map .crew ++ [.visitor wantedLoads (.visiting visits)] ++
    (workers ++ renewal.toList).map Ordering.Thread.crew
  return Timeline.play Ordering.turn
    { world, reports := [], results := [], shut := false, inProcess := none, ending := none }
    threads

end Enrollment.Rehearsal
