import Enrollment.Issuing.Workforce
import Enrollment.Settings

/-! # Starting the workforce

The two queues are made first, then the list that keeps the handles of all tasks. Each of these has
a limit of its own, and a start that passes it breaks off.
-/

namespace Enrollment

inductive StartFault where
  | queueWithoutRoom
  /-- There are more places than a queue can hand out permits for. -/
  | queueTooLarge
  /-- The count of the tasks fits no word. -/
  | countOverflow
  /-- The list of the tasks is larger than memory can be addressed. -/
  | listTooLarge
  deriving DecidableEq, Repr

namespace OrchestratorSettings

def maxPermits : Nat := 0x1fffffffffffffff

def maxListBytes : Nat := 0x7fffffffffffffff

/-- A handle is an address. -/
def handleBytes : Nat := 8

/-- The places of a queue. -/
def queuePlaces (capacity : Nat) : Except StartFault Nat :=
  if capacity = 0 then .error .queueWithoutRoom
  else if maxPermits < capacity then .error .queueTooLarge
  else .ok capacity

/-- How many handles the list of tasks has room for: those of the workers and one for the daily
renewal. -/
def taskPlaces (workers : Nat) : Except StartFault Nat :=
  let count := workers + 1
  if Settings.word64 < count then .error .countOverflow
  else if maxListBytes < count * handleBytes then .error .listTooLarge
  else .ok count

/-- There is at least one worker, and both queues have at least one place. -/
def start (settings : OrchestratorSettings) : Except StartFault Workforce := do
  let places ← queuePlaces (max settings.queueCapacity 1)
  let workers := max settings.workers 1
  let _ ← taskPlaces workers
  return .new workers places

end OrchestratorSettings

end Enrollment
