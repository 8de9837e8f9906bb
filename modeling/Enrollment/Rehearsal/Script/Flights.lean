import Enrollment.Json.Access
import Enrollment.Rehearsal.Flights

/-! # Scripts of single flights -/

namespace Enrollment.Rehearsal.Script

open Json

def workOf (v : Value) : ScriptedWork where
  duration := v.natAt "dur"
  result :=
    match v.flagAt "panic", v.textAt? "ok", v.textAt? "err" with
    | true, _, _ => none
    | false, some value, _ => some (.ok value)
    | false, none, some e => some (.error e)
    | false, none, none => none

def callerOf (v : Value) : ScriptedCaller where
  arrival := v.natAt "at"
  key := v.textAt "key"
  works := (v.listAt "work").map workOf
  dropAt := v.natAt? "abort_at"

/-- The threads of one place in a script: an observer, or as many callers as are wanted. -/
def flightThreads (place : Nat) (v : Value) : List Flights.Thread :=
  if v.flagAt "probe" then [.observer place (v.natAt "at") (v.textAt "key")]
  else List.replicate ((v.natAt? "count").getD 1) (.coming place (callerOf v))

end Enrollment.Rehearsal.Script
