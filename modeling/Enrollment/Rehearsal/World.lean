import Enrollment.Issuing.Fulfiller
import Enrollment.Issuing.Renewing
import Enrollment.Issuing.Workforce
import Enrollment.Rehearsal.Provider
import Enrollment.Rehearsal.Service
import Enrollment.Rehearsal.Store
import Enrollment.Rehearsal.Timeline

/-! # Worlds

All that the threads of a rehearsed issuer share, and how the calls of one thread play out in it.
-/

namespace Enrollment.Rehearsal

inductive Event where
  | asked (environment : Environment) (request : ServiceRequest) (key : AccountKey)
  | proof (method : ChallengeMethod) (step : ProofStep) (proof : Proof)
    (result : Except ProviderError Unit) (held : Option Nat)
  | record (event : RecordEvent)

structure World where
  services : PerEnvironment ScriptedService
  providers : Providers ScriptedProvider
  challengePolling : Polling
  orderPolling : Polling
  store : ScriptedStore
  /-- The moment at which the rehearsal begins. -/
  beginning : Calendar.Instant
  shutdown : Bool
  fulfiller : Fulfiller
  workforce : Workforce
  /-- Whether renewals are still scheduled. -/
  renewing : Bool
  renewalBroke : Bool
  /-- The latest first. -/
  log : List (Nat × Event)
  notices : List Notice

namespace World

/-- A world in which nothing has happened yet. -/
def new (services : PerEnvironment ScriptedService) (providers : Providers ScriptedProvider)
    (challengePolling : Polling) (store : ScriptedStore) (beginning : Calendar.Instant) :
    World where
  services
  providers
  challengePolling
  orderPolling := .default
  store
  beginning
  shutdown := false
  fulfiller := .empty
  workforce := .new 1 1
  renewing := false
  renewalBroke := false
  log := []
  notices := []

def solver (world : World) : Solver := ⟨world.providers.ids, world.challengePolling⟩

def authorizations (world : World) : AuthorizationFlights := world.fulfiller.flights

def clock (world : World) (now : Nat) : Calendar.Instant :=
  { world.beginning with nanos := world.beginning.nanos + now * 1000000 }

def record (world : World) (now : Nat) (event : Event) : World :=
  { world with log := (now, event) :: world.log }

def recordAll (world : World) (now : Nat) (events : List Event) : World :=
  events.foldl (fun world event => world.record now event) world

def tell (world : World) (notice : Notice) : World :=
  { world with notices := notice :: world.notices }

/-- Has the workforce make a move, if it can. -/
def work? (world : World) (move : Workforce.Move) : Option World :=
  (world.workforce.move? move).map fun workforce => { world with workforce }

/-- Shutdown is signalled to whoever waits, workers included. -/
def signalShutdown (world : World) : World :=
  let world := (world.work? .shutdown).getD world
  { world with shutdown := true }

def withService (world : World) (environment : Environment) (service : ScriptedService) : World :=
  match environment with
  | .production => { world with services := { world.services with production := service } }
  | .staging => { world with services := { world.services with staging := service } }

/-- Takes the reply to a request. -/
def ask (world : World) (now : Nat) (environment : Environment) (request : ServiceRequest)
    (key : AccountKey) : Option ServiceReply × World :=
  let world := world.record now (.asked environment request key)
  match (world.services.get environment).takeReply? request with
  | none => (none, world)
  | some (reply, service) => (some reply, world.withService environment service)

/-- Has the provider of a method carry out a step. Methods without one show nothing. -/
def prove (world : World) (now : Nat) (method : ChallengeMethod) (step : ProofStep)
    (proof : Proof) : Except ProviderError Unit × World :=
  match world.providers.get? method with
  | none => (.ok (), world)
  | some provider =>
    let (result, provider, events) := provider.run step proof
    let world := { world with providers := world.providers.register method provider }
    let world := world.recordAll now (events.map .record)
    (result, world.record now (.proof method step proof result provider.held?))

end World

/-- Work of one thread that is under way. -/
inductive Running (α : Type) where
  | going (work : Work α)
  /-- Waits for an answer that comes at a time. -/
  | answered (time : Nat) (work : Work α)
  | waiting (time : Nat) (next : Waited → Work α)
  | breaking (time : Nat)
  | joining (group : Nat) (next : TaskEnd → Work α)
  | enqueuing (order : Int) (priority : Priority) (next : Option Nat → Work α)

/-- A group whose tasks are to be worked on by the callers that they have. -/
structure Starting where
  group : Nat
  tasks : List (AuthorizationTask × Nat)

/-- What comes of running on for a step. -/
inductive Progress (α : Type) where
  | moved (world : World) (running : Running α) (starting : Option Starting)
  | waits (until? : Option Nat)
  | ended (result : α)
  | broke

namespace Running

variable {α : Type}

/-- What comes of a call. -/
def carryOut (now : Nat) (world : World) :
    (call : IssuerCall) → (call.Answer → Work α) → Progress α
  | .service environment request key, next =>
    match world.ask now environment request key with
    | (none, world) => .moved world (.going (next (unscripted request))) none
    | (some reply, world) =>
      match reply.answer? request with
      | none => .moved world (.breaking (now + reply.delay)) none
      | some answer => .moved world (.answered (now + reply.delay) (next answer)) none
  | .store request, next =>
    let (answer, store) := world.store.handle now request
    .moved { world with store } (.going (next answer)) none
  | .provision method proof, next =>
    let (result, world) := world.prove now method .provision proof
    .moved world (.going (next result)) none
  | .deprovision method proof, next =>
    let (result, world) := world.prove now method .deprovision proof
    .moved world (.going (next result)) none
  | .wait milliseconds, next => .moved world (.waiting (now + milliseconds) next) none
  | .clock, next => .moved world (.going (next (world.clock now))) none
  | .notify notice, next => .moved (world.tell notice) (.going (next ())) none
  | .start tasks, next =>
    let (fulfiller, group, callers) := world.fulfiller.start tasks
    .moved { world with fulfiller } (.going (next group)) (some ⟨group, tasks.zip callers⟩)
  | .join group, next => .moved world (.joining group next) none
  | .enqueue order priority, next => .moved world (.enqueuing order priority next) none

def step (now : Nat) (world : World) : Running α → Progress α
  | .going (.done a) => .ended a
  | .going (.call call next) => carryOut now world call next
  | .answered time work =>
    if time ≤ now then .moved world (.going work) none else .waits (some time)
  | .waiting time next =>
    match Waited.poll? world.shutdown (time ≤ now) with
    | some waited => .moved world (.going (next waited)) none
    | none => .waits (some time)
  | .breaking time => if time ≤ now then .broke else .waits (some time)
  | .joining group next =>
    match world.fulfiller.join? group with
    | some (ending, fulfiller) => .moved { world with fulfiller } (.going (next ending)) none
    | none => .waits none
  | .enqueuing order priority next =>
    match world.workforce.dispatch.submit order priority with
    | .closed => .moved world (.going (next none)) none
    | .full => .waits none
    | .accepted ticket dispatch =>
      let workforce := { world.workforce with dispatch }
      .moved { world with workforce } (.going (next (some ticket))) none

end Running

/-- A caller of a single flight, and its work while it owns the flight. -/
structure FlightRun (ν ε : Type) where
  caller : Nat
  work : Work (Except ε ν)
  running : Option (Running (Except ε ν))

inductive FlightProgress (ν ε : Type) where
  | moved (world : World) (run : FlightRun ν ε) (starting : Option Starting)
  | waits (until? : Option Nat)
  /-- The caller has its result, or was dropped without one. -/
  | ended (result : Option (Except ε ν))

/-- Where in the world the flights of a kind are kept. -/
structure FlightPlace (κ ν ε : Type) where
  get : World → SingleFlight κ ν ε
  put : World → SingleFlight κ ν ε → World

namespace FlightRun

variable {κ ν ε : Type} [DecidableEq κ]

def takeStep (place : FlightPlace κ ν ε) (world : World) (run : FlightRun ν ε)
    (step : SingleFlight.Step ν ε) : FlightProgress ν ε :=
  match (place.get world).step? run.caller step with
  | some flights => .moved (place.put world flights) { run with running := none } none
  | none => .waits none

def step (place : FlightPlace κ ν ε) (now : Nat) (world : World) (run : FlightRun ν ε) :
    FlightProgress ν ε :=
  match (place.get world).phase? run.caller with
  | none => .ended none
  | some .starting => run.takeStep place world .register
  | some (.working _) =>
    match run.running with
    | none => .moved world { run with running := some (.going run.work) } none
    | some running =>
      match running.step now world with
      | .moved world running starting => .moved world { run with running := some running } starting
      | .waits until? => .waits until?
      | .ended result => run.takeStep place world (.finish result)
      | .broke => run.takeStep place world .drop
  | some (.ending _ _) => run.takeStep place world .clear
  | some (.publishing _ _) => run.takeStep place world .publish
  | some (.waiting _) => run.takeStep place world .look
  | some (.returned result) => .ended (some result)
  | some .dropped => .ended none

end FlightRun

def authorizationPlace : FlightPlace Url AuthorizationStatus FulfillError :=
  ⟨World.authorizations, fun world flights =>
    { world with fulfiller := { world.fulfiller with flights } }⟩

def orderPlace : FlightPlace Int Outcome JobError :=
  ⟨fun world => world.workforce.tracker, fun world tracker =>
    { world with workforce := { world.workforce with tracker } }⟩

/-- The work on a task by a caller of its authorization's flights. -/
def World.taskRun (world : World) (task : AuthorizationTask) (caller : Nat) :
    FlightRun AuthorizationStatus FulfillError :=
  ⟨caller, Authorizations.fulfillOne world.solver task, none⟩

end Enrollment.Rehearsal
