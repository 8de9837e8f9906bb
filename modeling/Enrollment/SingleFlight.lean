import Enrollment.Keyed

/-! # Single flights

Callers that want the work of a key done share one run of it. The first caller starts a flight and
does the work; those that come while it is in the air wait for it to land. A flight that lands is
shared by all who joined it. After one that fails, because the work went wrong or its owner was
dropped, each of them starts over. The owner takes the flight out of the air before it makes its
outcome known.

Callers move one at a time, in any order.
-/

namespace Enrollment

inductive Flight (ν : Type) where
  | running
  | landed (value : ν)
  | failed
  deriving DecidableEq, Repr

namespace Flight

variable {ν ε : Type}

/-- What a flight comes to when its work ends; without a result its owner was dropped. -/
def ofResult : Option (Except ε ν) → Flight ν
  | some (.ok value) => landed value
  | some (.error _) => failed
  | none => failed

end Flight

namespace SingleFlight

/-- Where a caller stands. Flights are known by number. -/
inductive Phase (ν ε : Type) where
  | starting
  | working (flight : Nat)
  | ending (flight : Nat) (result : Option (Except ε ν))
  | publishing (flight : Nat) (result : Option (Except ε ν))
  | waiting (flight : Nat)
  | returned (result : Except ε ν)
  | dropped
  deriving Repr

/-- What a caller ends with once it has ended. -/
def Phase.ending? {ν ε : Type} : Phase ν ε → Option (Option (Except ε ν))
  | returned result => some (some result)
  | dropped => some none
  | starting | working _ | ending _ _ | publishing _ _ | waiting _ => none

structure Caller (κ ν ε : Type) where
  key : κ
  /-- How often the caller did the work itself. -/
  runs : Nat
  phase : Phase ν ε
  deriving Repr

/-- What a caller can do. -/
inductive Step (ν ε : Type) where
  | register
  | finish (result : Except ε ν)
  | drop
  | clear
  | publish
  | look

inductive Move (κ ν ε : Type) where
  | call (key : κ)
  | step (caller : Nat) (step : Step ν ε)

end SingleFlight

open SingleFlight

structure SingleFlight (κ ν ε : Type) where
  inAir : Keyed κ Nat
  flights : List (Flight ν)
  callers : List (Caller κ ν ε)
  deriving Repr

namespace SingleFlight

variable {κ ν ε : Type}

def empty : SingleFlight κ ν ε := ⟨.empty, [], []⟩

def size (s : SingleFlight κ ν ε) : Nat := s.inAir.size

def describe (s : SingleFlight κ ν ε) : String :=
  s!"SingleFlight \x7b in_flight: {s.size} \x7d"

def phase? (s : SingleFlight κ ν ε) (caller : Nat) : Option (Phase ν ε) :=
  s.callers[caller]?.map Caller.phase

def ending? (s : SingleFlight κ ν ε) (caller : Nat) : Option (Option (Except ε ν)) :=
  (s.phase? caller).bind Phase.ending?

/-- A new caller, with the number that it gets. -/
def call (s : SingleFlight κ ν ε) (key : κ) : SingleFlight κ ν ε × Nat :=
  ({ s with callers := s.callers ++ [⟨key, 0, .starting⟩] }, s.callers.length)

/-- New callers one after another. -/
def callAll (s : SingleFlight κ ν ε) : List κ → SingleFlight κ ν ε × List Nat
  | [] => (s, [])
  | key :: keys =>
    let (s, caller) := s.call key
    let (s, callers) := s.callAll keys
    (s, caller :: callers)

def withPhase (s : SingleFlight κ ν ε) (i : Nat) (caller : Caller κ ν ε) (phase : Phase ν ε) :
    SingleFlight κ ν ε :=
  { s with callers := s.callers.set i { caller with phase } }

variable [DecidableEq κ]

def isInAir (s : SingleFlight κ ν ε) (key : κ) : Bool := s.inAir.contains key

/-- Joins the flight of the key, or starts one when there is none. -/
def register (s : SingleFlight κ ν ε) (i : Nat) (caller : Caller κ ν ε) : SingleFlight κ ν ε :=
  match s.inAir.get? caller.key with
  | some flight => s.withPhase i caller (.waiting flight)
  | none =>
    let flight := s.flights.length
    { s with
      inAir := s.inAir.put caller.key flight
      flights := s.flights ++ [Flight.running]
      callers := s.callers.set i
        { caller with runs := caller.runs + 1, phase := .working flight } }

/-- The step of a caller, if it can take it where it stands. -/
def stepOf? (s : SingleFlight κ ν ε) (i : Nat) (caller : Caller κ ν ε) (step : Step ν ε) :
    Option (SingleFlight κ ν ε) :=
  match caller.phase, step with
  | .starting, .register => some (s.register i caller)
  | .starting, .drop => some (s.withPhase i caller .dropped)
  | .working flight, .finish result => some (s.withPhase i caller (.ending flight (some result)))
  | .working flight, .drop => some (s.withPhase i caller (.ending flight none))
  | .ending flight result, .clear =>
    some ({ s with inAir := s.inAir.erase caller.key }.withPhase i caller
      (.publishing flight result))
  | .publishing flight result, .publish =>
    let s := { s with flights := s.flights.set flight (.ofResult result) }
    match result with
    | some result => some (s.withPhase i caller (.returned result))
    | none => some (s.withPhase i caller .dropped)
  | .waiting flight, .look =>
    match s.flights[flight]? with
    | some (.landed value) => some (s.withPhase i caller (.returned (.ok value)))
    | some .failed => some (s.withPhase i caller .starting)
    | _ => none
  | .waiting _, .drop => some (s.withPhase i caller .dropped)
  | _, _ => none

def step? (s : SingleFlight κ ν ε) (i : Nat) (step : Step ν ε) : Option (SingleFlight κ ν ε) :=
  s.callers[i]?.bind fun caller => s.stepOf? i caller step

def move? (s : SingleFlight κ ν ε) : Move κ ν ε → Option (SingleFlight κ ν ε)
  | .call key => some (s.call key).1
  | .step i step => s.step? i step

/-- What can come about by any moves in any order. -/
inductive Reachable : SingleFlight κ ν ε → Prop where
  | empty : Reachable empty
  | move {s t : SingleFlight κ ν ε} (m : Move κ ν ε) (h : Reachable s) (e : s.move? m = some t) :
    Reachable t

end SingleFlight

end Enrollment
