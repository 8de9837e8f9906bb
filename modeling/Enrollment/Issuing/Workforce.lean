import Enrollment.Issuing.Dispatch
import Enrollment.Issuing.Job
import Enrollment.SingleFlight

/-! # The workforce

Workers run the orders that they take through one tracker, so that an order that several of them
have taken is worked on once. A worker that has the result of its call answers the ticket of its
order and is free for the next one.
-/

namespace Enrollment

abbrev JobEnd := Except JobError Outcome

abbrev OrderFlights := SingleFlight Int Outcome JobError

structure Workforce where
  dispatch : Dispatch JobEnd
  tracker : OrderFlights
  /-- The calls at the tracker whose results busy workers wait for, by worker. -/
  calls : Keyed Nat Nat

namespace Workforce

def new (workers capacity : Nat) : Workforce := ⟨.new workers capacity, .empty, .empty⟩

inductive Move where
  | submit (order : Int) (priority : Priority)
  | shutdown
  | look (worker : Nat)
  | take (worker : Nat)
  /-- Hands the order of a worker to the tracker. -/
  | call (worker : Nat)
  | track (call : Nat) (step : SingleFlight.Step Outcome JobError)
  | answer (worker : Nat)
  | break (worker : Nat)

def dispatched (w : Workforce) (m : Dispatch.Move JobEnd) : Option Workforce :=
  (w.dispatch.move? m).map fun dispatch => { w with dispatch }

/-- How far the call of a worker has come. -/
def phase? (w : Workforce) (worker : Nat) : Option (SingleFlight.Phase Outcome JobError) :=
  (w.calls.get? worker).bind w.tracker.phase?

def withoutCall (w : Workforce) (worker : Nat) : Workforce :=
  { w with calls := w.calls.erase worker }

def move? (w : Workforce) : Move → Option Workforce
  | .submit order priority => w.dispatched (.submit order priority)
  | .shutdown => w.dispatched .shutdown
  | .look i => w.dispatched (.step i .look)
  | .take i => w.dispatched (.step i .take)
  | .call i =>
    match w.dispatch.workers[i]?, w.calls.get? i with
    | some (.busy entry), none =>
      let (tracker, call) := w.tracker.call entry.order
      some { w with tracker, calls := w.calls.put i call }
    | _, _ => none
  | .track call step => (w.tracker.step? call step).map fun tracker => { w with tracker }
  | .answer i =>
    match w.phase? i with
    | some (.returned result) => (w.withoutCall i).dispatched (.step i (.finish result))
    | _ => none
  | .break i =>
    match w.phase? i with
    | some .dropped => (w.withoutCall i).dispatched (.step i .break)
    | _ => none

end Workforce

end Enrollment
