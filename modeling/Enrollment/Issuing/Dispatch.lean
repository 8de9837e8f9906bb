import Enrollment.Issuing.Call

/-! # Dispatch

Orders wait in two bounded queues and are taken out by a fixed number of workers, one worker at a
time, those of high priority first. Shutdown comes before any order. When the last worker has
stopped, what is still queued is given up.

Every order that is queued has a ticket, by whose number its result is found.
-/

namespace Enrollment

namespace Dispatch

structure Entry where
  ticket : Nat
  order : Int
  deriving DecidableEq, Repr

/-- Where a worker stands. Only one at a time looks into the queues. -/
inductive Worker where
  | idle
  | looking
  | busy (entry : Entry)
  | stopped
  | broken
  deriving DecidableEq, Repr

def Worker.isGone : Worker → Bool
  | stopped | broken => true
  | idle | looking | busy _ => false

end Dispatch

open Dispatch

structure Dispatch (ρ : Type) where
  capacity : Nat
  high : List Entry
  low : List Entry
  workers : List Worker
  shutdown : Bool
  /-- How many tickets have been given out. -/
  tickets : Nat
  /-- The results by ticket; those given up have none. -/
  ended : Keyed Nat (Option ρ)
  deriving Repr

namespace Dispatch

variable {ρ : Type}

/-- There is at least one worker, and room for one order in each queue. -/
def new (workers capacity : Nat) : Dispatch ρ where
  capacity := max capacity 1
  high := []
  low := []
  workers := List.replicate (max workers 1) .idle
  shutdown := false
  tickets := 0
  ended := .empty

def isClosed (d : Dispatch ρ) : Bool := d.workers.all Worker.isGone

def queue (d : Dispatch ρ) : Priority → List Entry
  | .high => d.high
  | .low => d.low

def withQueue (d : Dispatch ρ) (entries : List Entry) : Priority → Dispatch ρ
  | .high => { d with high := entries }
  | .low => { d with low := entries }

inductive Submission (ρ : Type) where
  | closed
  | full
  | accepted (ticket : Nat) (dispatch : Dispatch ρ)

def submit (d : Dispatch ρ) (order : Int) (priority : Priority) : Submission ρ :=
  if d.isClosed then .closed
  else if d.capacity ≤ (d.queue priority).length then .full
  else
    let entries := d.queue priority ++ [⟨d.tickets, order⟩]
    .accepted d.tickets { d.withQueue entries priority with tickets := d.tickets + 1 }

def withWorker (d : Dispatch ρ) (i : Nat) (worker : Worker) : Dispatch ρ :=
  { d with workers := d.workers.set i worker }

def giveUp (d : Dispatch ρ) (entries : List Entry) : Dispatch ρ :=
  { d with ended := entries.foldl (fun ended e => ended.put e.ticket none) d.ended }

/-- Gives up what is queued when nobody is left to take it. -/
def close (d : Dispatch ρ) : Dispatch ρ :=
  if d.isClosed then { d.giveUp (d.high ++ d.low) with high := [], low := [] } else d

/-- What a worker can do. -/
inductive Step (ρ : Type) where
  | look
  | take
  | finish (result : ρ)
  | break

/-- What a worker that looks into the queues finds, if there is anything to find. -/
def take? (d : Dispatch ρ) (i : Nat) : Option (Dispatch ρ) :=
  if d.shutdown then some (d.withWorker i .stopped).close
  else
    match d.high, d.low with
    | entry :: high, _ => some ({ d with high }.withWorker i (.busy entry))
    | [], entry :: low => some ({ d with low }.withWorker i (.busy entry))
    | [], [] => none

/-- The step of a worker, if it can take it where it stands. -/
def step? (d : Dispatch ρ) (i : Nat) (step : Step ρ) : Option (Dispatch ρ) :=
  match d.workers[i]?, step with
  | some .idle, .look =>
    if d.workers.contains .looking then none else some (d.withWorker i .looking)
  | some .looking, .take => d.take? i
  | some (.busy entry), .finish result =>
    some { d.withWorker i .idle with ended := d.ended.put entry.ticket (some result) }
  | some (.busy entry), .break => some ((d.giveUp [entry]).withWorker i .broken).close
  | _, _ => none

inductive Move (ρ : Type) where
  | submit (order : Int) (priority : Priority)
  | shutdown
  | step (worker : Nat) (step : Step ρ)

def move? (d : Dispatch ρ) : Move ρ → Option (Dispatch ρ)
  | .submit order priority =>
    match d.submit order priority with
    | .accepted _ d => some d
    | .closed | .full => none
  | .shutdown => some { d with shutdown := true }
  | .step i step => d.step? i step

/-- What can come about from a new dispatch by any moves in any order. -/
inductive Reachable (workers capacity : Nat) : Dispatch ρ → Prop where
  | new : Reachable workers capacity (new workers capacity)
  | move {d e : Dispatch ρ} (m : Move ρ) (h : Reachable workers capacity d)
    (eq : d.move? m = some e) : Reachable workers capacity e

/-- How many workers broke off. -/
def broken (d : Dispatch ρ) : Nat := d.workers.count .broken

end Dispatch

end Enrollment
