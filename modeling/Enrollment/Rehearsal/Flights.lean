import Enrollment.Rehearsal.Timeline
import Enrollment.SingleFlight

/-! # Rehearsing single flights

Callers come at set times, do work of a set length when they own a flight, and may be dropped at a
set time.
-/

namespace Enrollment.Rehearsal

/-- Work of a set length; without a result it breaks its caller. -/
structure ScriptedWork where
  duration : Nat
  result : Option (Except String String)

structure ScriptedCaller where
  arrival : Nat
  key : String
  /-- The work by run; the last one goes for all later runs too. -/
  works : List ScriptedWork
  dropAt : Option Nat

inductive CallerEnd where
  | returned (time runs : Nat) (result : Except String String)
  | dropped
  | broken
  | seen (inFlight : Nat) (keyInFlight : Bool)

namespace Flights

structure World where
  flights : SingleFlight String String String
  /-- How callers and observers ended, by their places. -/
  ends : List (Nat × CallerEnd)

inductive Thread where
  | coming (place : Nat) (caller : ScriptedCaller)
  /-- A caller with its number, and its work while that is under way. -/
  | calling (place : Nat) (caller : ScriptedCaller) (number : Nat)
    (work : Option (Nat × ScriptedWork))
  /-- A caller whose work broke. -/
  | breaking (place : Nat) (number : Nat)
  | observer (place time : Nat) (key : String)

abbrev FlightTurn := Turn World Thread

def World.record (world : World) (place : Nat) (ending : CallerEnd) : World :=
  { world with ends := world.ends ++ [(place, ending)] }

def isDue (now : Nat) (time : Option Nat) : Bool := time.any (· ≤ now)

def earliest (a : Option Nat) (b : Nat) : Nat := a.elim b (min b)

/-- Lets a caller take a step, if it can. -/
def takeStep (world : World) (number : Nat) (step : SingleFlight.Step String String)
    (thread : Thread) (until? : Option Nat) : FlightTurn :=
  match world.flights.step? number step with
  | some flights => .moved { world with flights } thread []
  | none => .waits until?

def workFor (caller : ScriptedCaller) (runs : Nat) : ScriptedWork :=
  ((caller.works[runs - 1]?).or caller.works.getLast?).getD ⟨0, none⟩

/-- The turn of a caller that owns a flight. -/
def ownerTurn (now place : Nat) (caller : ScriptedCaller) (number runs : Nat)
    (work : Option (Nat × ScriptedWork)) (world : World) : FlightTurn :=
  let idle := Thread.calling place caller number none
  match work with
  | none =>
    let work := workFor caller runs
    .moved world (.calling place caller number (some (now + work.duration, work))) []
  | some (till, work) =>
    if till ≤ now then
      match work.result with
      | some result => takeStep world number (.finish result) idle none
      | none => takeStep world number .drop (.breaking place number) none
    else if isDue now caller.dropAt then takeStep world number .drop idle none
    else .waits (some (earliest caller.dropAt till))

/-- Clears up after a flight, and says how its caller ended. -/
def phaseTurn (world : World) (place number : Nat) (thread : Thread) (gone : CallerEnd)
    (runs now : Nat) : SingleFlight.Phase String String → Option FlightTurn
  | .ending _ _ => some (takeStep world number .clear thread none)
  | .publishing _ _ => some (takeStep world number .publish thread none)
  | .returned result => some (.ended (world.record place (.returned now runs result)))
  | .dropped => some (.ended (world.record place gone))
  | _ => none

def turn (now : Nat) : Thread → World → FlightTurn
  | .coming place caller, world =>
    if caller.arrival ≤ now then
      let (flights, number) := world.flights.call caller.key
      .moved { world with flights } (.calling place caller number none) []
    else if isDue now caller.dropAt then .ended (world.record place .dropped)
    else .waits (some (earliest caller.dropAt caller.arrival))
  | .calling place caller number work, world =>
    let thread := Thread.calling place caller number none
    match world.flights.callers[number]? with
    | none => .ended world
    | some { runs, phase, .. } =>
      match phaseTurn world place number thread .dropped runs now phase, phase with
      | some turn, _ => turn
      | none, .working _ => ownerTurn now place caller number runs work world
      | none, .waiting _ =>
        match world.flights.step? number .look with
        | some flights => .moved { world with flights } thread []
        | none =>
          if isDue now caller.dropAt then takeStep world number .drop thread none
          else .waits caller.dropAt
      | none, .starting => takeStep world number .register thread none
      | none, _ => .waits none
  | .breaking place number, world =>
    match world.flights.phase? number with
    | none => .ended world
    | some phase =>
      (phaseTurn world place number (.breaking place number) .broken 0 now phase).getD (.waits none)
  | .observer place time key, world =>
    if time ≤ now then
      .ended (world.record place (.seen world.flights.size (world.flights.isInAir key)))
    else .waits (some time)

end Flights

/-- What is left when all callers have ended. -/
def rehearseFlights (threads : List Flights.Thread) : Flights.World :=
  Timeline.play Flights.turn ⟨.empty, []⟩ threads

end Enrollment.Rehearsal
