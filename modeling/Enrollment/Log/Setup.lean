import Enrollment.Log.Filter
import Enrollment.Variable

/-! # Setting up the log

A process has one filter, set once; a filter that cannot be read leaves it unset. Setting it writes
a first event.
-/

namespace Enrollment.Log

inductive SetupError where
  | filter
  | taken
  deriving DecidableEq, Repr

def filterKeys : List String := ["CERTHUB_LOG", "RUST_LOG"]

def defaultFilter : String := "info"

/-- The filter that the variables ask for: the first that has a text. -/
def filterText (given : Variables) : String :=
  (filterKeys.findSome? fun key =>
    match given key with
    | .text s => some s
    | _ => none).getD defaultFilter

def startEvent : Event :=
  ⟨"certhub_issuer::telemetry", .info, ["message", "service", "filter"]⟩

/-- The filter in force, once it is set. -/
abbrev Setup := Option Filter

/-- Sets the filter and gives the setup with whether the first event is let through. -/
def Setup.install (setup : Setup) (text : String) : Except SetupError (Filter × Bool) :=
  match Filter.ofText text with
  | .error _ => .error .filter
  | .ok filter =>
    match setup with
    | some _ => .error .taken
    | none => .ok (filter, filter.lets startEvent)

/-- Whether an event is written. Nothing is while no filter is set. -/
def Setup.lets (setup : Setup) (event : Event) : Bool := setup.any (·.lets event)

end Enrollment.Log
