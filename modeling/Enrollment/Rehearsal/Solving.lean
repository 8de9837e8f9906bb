import Enrollment.Rehearsal.Crew

/-! # Rehearsing a solver

One challenge is solved while shutdown may be signalled.
-/

namespace Enrollment.Rehearsal

inductive SolveEnd where
  | finished (time : Nat) (result : Except SolveError ChallengeStatus)
  | broke

namespace Solving

structure State where
  world : World
  ending : Option SolveEnd

inductive Thread where
  | crew (crew : Crew)
  | solving (running : Running (Except SolveError ChallengeStatus))

def turn (now : Nat) : Thread → State → Turn State Thread
  | .crew crew, state =>
    (crew.turn now state.world).within (fun world => { state with world }) .crew
  | .solving running, state =>
    match running.step now state.world with
    | .moved world running starting =>
      .moved { state with world } (.solving running) ((world.taskThreads starting).map .crew)
    | .waits until? => .waits until?
    | .ended result => .ended { state with ending := some (.finished now result) }
    | .broke => .ended { state with ending := some .broke }

end Solving

/-- Solves a challenge and gives what is left, with how it ended. -/
def rehearseSolve (world : World) (cancelAt : Option Nat)
    (work : Work (Except SolveError ChallengeStatus)) : Solving.State :=
  let signal := cancelAt.map fun time => Solving.Thread.crew (.signal time)
  Timeline.play Solving.turn ⟨world, none⟩ (signal.toList ++ [.solving (.going work)])

end Enrollment.Rehearsal
