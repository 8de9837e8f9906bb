/-! # Timelines

Threads that share a world, in virtual time. A thread goes on until it has to wait, and time stands
still as long as any of them can go on. Then it moves to the first moment that one of them waits
for.
-/

namespace Enrollment.Rehearsal

/-- What comes of a thread's turn. -/
inductive Turn (World Thread : Type) where
  /-- The thread went on, and may have started others. -/
  | moved (world : World) (thread : Thread) (started : List Thread)
  /-- It waits for the world to change, or for a time if there is one. -/
  | waits (until? : Option Nat)
  | ended (world : World)

structure Timeline (World Thread : Type) where
  now : Nat
  world : World
  /-- Threads whose turn is still to come. -/
  ready : List Thread
  waiting : List (Thread × Option Nat)
  /-- Whether anything has happened since the threads that wait had their turns. -/
  changed : Bool

namespace Timeline

variable {World Thread : Type}

def start (world : World) (threads : List Thread) : Timeline World Thread :=
  ⟨0, world, threads, [], false⟩

/-- The first moment after now that a thread waits for. -/
def nextMoment? (t : Timeline World Thread) : Option Nat :=
  ((t.waiting.filterMap Prod.snd).filter (t.now < ·)).min?

def awake (t : Timeline World Thread) : Timeline World Thread :=
  { t with ready := t.waiting.map Prod.fst, waiting := [], changed := false }

variable (turn : Nat → Thread → World → Turn World Thread)

def step? (t : Timeline World Thread) : Option (Timeline World Thread) :=
  match t.ready with
  | thread :: ready =>
    match turn t.now thread t.world with
    | .moved world thread started =>
      some { t with world, ready := thread :: ready ++ started, changed := true }
    | .waits until? => some { t with ready, waiting := t.waiting ++ [(thread, until?)] }
    | .ended world => some { t with world, ready, changed := true }
  | [] =>
    if t.changed then some t.awake
    else t.nextMoment?.map fun now => { t.awake with now }

/-- Runs until nothing can happen any more, for at most so many steps. -/
def run : Nat → Timeline World Thread → Timeline World Thread
  | 0, t => t
  | fuel + 1, t =>
    match t.step? turn with
    | none => t
    | some t => run fuel t

def maxSteps : Nat := 1000000000000

/-- The world when all is over. -/
def play (world : World) (threads : List Thread) : World :=
  ((start world threads).run turn maxSteps).world

end Timeline

end Enrollment.Rehearsal
