import Enrollment.Proofs.Lookup
import Enrollment.SingleFlight

/-! # Histories of single flights

Every move of a caller leaves an event, and a run is told by the events of its moves in their
order. `Change` says once what a move can do to the flights; everything that is proved of runs goes
through it.
-/

namespace Enrollment.SingleFlight

variable {κ ν ε : Type}

/-- What a caller has done. A result that is missing is that of a dropped owner. -/
inductive Event (κ ν ε : Type) where
  | called (caller : Nat) (key : κ)
  | started (caller flight : Nat) (key : κ)
  | joined (caller flight : Nat)
  | worked (caller flight : Nat) (result : Option (Except ε ν))
  | cleared (caller flight : Nat)
  | published (caller flight : Nat) (result : Option (Except ε ν))
  | shared (caller flight : Nat) (value : ν)
  | missed (caller flight : Nat)
  | left (caller : Nat)

namespace Event

def caller : Event κ ν ε → Nat
  | called i _ | started i _ _ | joined i _ | worked i _ _ | cleared i _ | published i _ _
  | shared i _ _ | missed i _ | left i => i

/-- The flight that an owner takes a step of. -/
def flight? : Event κ ν ε → Option Nat
  | started _ f _ | worked _ f _ | cleared _ f | published _ f _ => some f
  | called _ _ | joined _ _ | shared _ _ _ | missed _ _ | left _ => none

def isBy (i : Nat) (e : Event κ ν ε) : Bool := e.caller = i

def isOf (f : Nat) (e : Event κ ν ε) : Bool := e.flight? = some f

end Event

namespace Phase

/-- Where the owner of a flight stands when all is done. -/
def ended : Option (Except ε ν) → Phase ν ε
  | some result => returned result
  | none => dropped

/-- Whether a caller owns no flight and may come to own one. -/
def isIdle : Phase ν ε → Bool
  | starting | waiting _ => true
  | working _ | ending _ _ | publishing _ _ | returned _ | dropped => false

end Phase

theorem getElem?_call_cases (s : SingleFlight κ ν ε) (key : κ) {j : Nat} {d : Caller κ ν ε}
    (h : (s.call key).1.callers[j]? = some d) :
    j = s.callers.length ∧ d = ⟨key, 0, .starting⟩ ∨ s.callers[j]? = some d := by
  simp only [call] at h
  by_cases hj : j < s.callers.length
  · rw [List.getElem?_append_left hj] at h
    exact .inr h
  · rw [List.getElem?_append_right (Nat.le_of_not_lt hj), List.getElem?_singleton] at h
    split at h
    · exact .inl ⟨by omega, (Option.some.inj h).symm⟩
    · cases h

variable [DecidableEq κ]

def eventOf? (s : SingleFlight κ ν ε) (i : Nat) (caller : Caller κ ν ε) (step : Step ν ε) :
    Option (Event κ ν ε) :=
  match caller.phase, step with
  | .starting, .register =>
    match s.inAir.get? caller.key with
    | some flight => some (.joined i flight)
    | none => some (.started i s.flights.length caller.key)
  | .starting, .drop => some (.left i)
  | .working flight, .finish result => some (.worked i flight (some result))
  | .working flight, .drop => some (.worked i flight none)
  | .ending flight _, .clear => some (.cleared i flight)
  | .publishing flight result, .publish => some (.published i flight result)
  | .waiting flight, .look =>
    match s.flights[flight]? with
    | some (.landed value) => some (.shared i flight value)
    | some .failed => some (.missed i flight)
    | _ => none
  | .waiting _, .drop => some (.left i)
  | _, _ => none

/-- The event of a move, if the move can be made. -/
def event? (s : SingleFlight κ ν ε) : Move κ ν ε → Option (Event κ ν ε)
  | .call key => some (.called s.callers.length key)
  | .step i step => s.callers[i]?.bind fun caller => s.eventOf? i caller step

/-- A run from the beginning, with its events. -/
inductive Run : List (Event κ ν ε) → SingleFlight κ ν ε → Prop where
  | start : Run [] empty
  | move {past : List (Event κ ν ε)} {s t : SingleFlight κ ν ε} {e : Event κ ν ε} (m : Move κ ν ε)
    (run : Run past s) (shows : s.event? m = some e) (moves : s.move? m = some t) :
    Run (past ++ [e]) t

theorem Run.reachable {past : List (Event κ ν ε)} {s : SingleFlight κ ν ε} (h : Run past s) :
    Reachable s := by
  induction h with
  | start => exact .empty
  | move m _ _ moves ih => exact .move m ih moves

theorem isSome_eventOf? (s : SingleFlight κ ν ε) (i : Nat) (caller : Caller κ ν ε)
    (step : Step ν ε) : (s.eventOf? i caller step).isSome = (s.stepOf? i caller step).isSome := by
  obtain ⟨key, runs, phase⟩ := caller
  cases phase with
  | starting =>
    cases step with
    | register =>
      simp only [eventOf?, stepOf?]
      split <;> rfl
    | _ => rfl
  | publishing flight result =>
    cases result <;> cases step <;> rfl
  | waiting flight =>
    cases step with
    | look =>
      simp only [eventOf?, stepOf?]
      cases s.flights[flight]? with
      | none => rfl
      | some state => cases state <;> rfl
    | _ => rfl
  | _ => cases step <;> rfl

theorem isSome_event? (s : SingleFlight κ ν ε) (m : Move κ ν ε) :
    (s.event? m).isSome = (s.move? m).isSome := by
  cases m with
  | call key => rfl
  | step i step =>
    simp only [event?, move?, step?]
    cases s.callers[i]? with
    | none => rfl
    | some caller => exact isSome_eventOf? s i caller step

/-- Every state that can come about has a run that tells how. -/
theorem Reachable.exists_run {s : SingleFlight κ ν ε} (h : Reachable s) :
    ∃ past, Run past s := by
  induction h with
  | empty => exact ⟨[], .start⟩
  | @move s t m _ moves ih =>
    obtain ⟨past, run⟩ := ih
    have hEvent : (s.event? m).isSome = true := by rw [isSome_event?, moves]; rfl
    obtain ⟨e, shows⟩ := Option.isSome_iff_exists.mp hEvent
    exact ⟨past ++ [e], .move m run shows moves⟩

/-- All that a move can do, by the event that it leaves. -/
inductive Change (s : SingleFlight κ ν ε) : Event κ ν ε → SingleFlight κ ν ε → Prop where
  | called (key : κ) : Change s (.called s.callers.length key) (s.call key).1
  | left {i : Nat} {c : Caller κ ν ε} (found : s.callers[i]? = some c)
    (idle : c.phase.isIdle = true) :
    Change s (.left i) (s.withPhase i c .dropped)
  | joined {i f : Nat} {c : Caller κ ν ε} (found : s.callers[i]? = some c)
    (phase : c.phase = .starting) (inAir : s.inAir.get? c.key = some f) :
    Change s (.joined i f) (s.withPhase i c (.waiting f))
  | started {i : Nat} {c : Caller κ ν ε} (found : s.callers[i]? = some c)
    (phase : c.phase = .starting) (free : s.inAir.get? c.key = none) :
    Change s (.started i s.flights.length c.key) {
      inAir := s.inAir.put c.key s.flights.length
      flights := s.flights ++ [.running]
      callers := s.callers.set i
        { c with runs := c.runs + 1, phase := .working s.flights.length } }
  | worked {i f : Nat} {c : Caller κ ν ε} (result : Option (Except ε ν))
    (found : s.callers[i]? = some c) (phase : c.phase = .working f) :
    Change s (.worked i f result) (s.withPhase i c (.ending f result))
  | cleared {i f : Nat} {c : Caller κ ν ε} {result : Option (Except ε ν)}
    (found : s.callers[i]? = some c) (phase : c.phase = .ending f result) :
    Change s (.cleared i f)
      ({ s with inAir := s.inAir.erase c.key }.withPhase i c (.publishing f result))
  | published {i f : Nat} {c : Caller κ ν ε} {result : Option (Except ε ν)}
    (found : s.callers[i]? = some c) (phase : c.phase = .publishing f result) :
    Change s (.published i f result)
      ({ s with flights := s.flights.set f (.ofResult result) }.withPhase i c (.ended result))
  | shared {i f : Nat} {c : Caller κ ν ε} {value : ν} (found : s.callers[i]? = some c)
    (phase : c.phase = .waiting f) (landed : s.flights[f]? = some (.landed value)) :
    Change s (.shared i f value) (s.withPhase i c (.returned (.ok value)))
  | missed {i f : Nat} {c : Caller κ ν ε} (found : s.callers[i]? = some c)
    (phase : c.phase = .waiting f) (failed : s.flights[f]? = some .failed) :
    Change s (.missed i f) (s.withPhase i c .starting)

theorem change_of_stepOf? {s t : SingleFlight κ ν ε} {i : Nat} {c : Caller κ ν ε}
    {step : Step ν ε} {e : Event κ ν ε} (found : s.callers[i]? = some c)
    (shows : s.eventOf? i c step = some e) (moves : s.stepOf? i c step = some t) :
    Change s e t := by
  unfold eventOf? at shows
  unfold stepOf? at moves
  split at shows
  · rename_i hPhase
    simp only [hPhase, register] at moves
    split at shows
    · rename_i f hInAir
      simp only [hInAir] at moves
      cases shows
      cases moves
      exact .joined found hPhase hInAir
    · rename_i hFree
      simp only [hFree] at moves
      cases shows
      cases moves
      exact .started found hPhase hFree
  · rename_i hPhase
    simp only [hPhase] at moves
    cases shows
    cases moves
    exact .left found (by rw [hPhase]; rfl)
  · rename_i hPhase
    simp only [hPhase] at moves
    cases shows
    cases moves
    exact .worked _ found hPhase
  · rename_i hPhase
    simp only [hPhase] at moves
    cases shows
    cases moves
    exact .worked none found hPhase
  · rename_i hPhase
    simp only [hPhase] at moves
    cases shows
    cases moves
    exact .cleared found hPhase
  · rename_i f result hPhase
    simp only [hPhase] at moves
    cases shows
    cases result <;> cases moves <;> exact .published found hPhase
  · rename_i f hPhase
    simp only [hPhase] at moves
    split at shows
    · rename_i value hLanded
      simp only [hLanded] at moves
      cases shows
      cases moves
      exact .shared found hPhase hLanded
    · rename_i hFailed
      simp only [hFailed] at moves
      cases shows
      cases moves
      exact .missed found hPhase hFailed
    · cases shows
  · rename_i hPhase
    simp only [hPhase] at moves
    cases shows
    cases moves
    exact .left found (by rw [hPhase]; rfl)
  · cases shows

theorem change_of_move? {s t : SingleFlight κ ν ε} {m : Move κ ν ε} {e : Event κ ν ε}
    (shows : s.event? m = some e) (moves : s.move? m = some t) : Change s e t := by
  cases m with
  | call key =>
    cases shows
    cases moves
    exact .called key
  | step i step =>
    obtain ⟨c, found, shows⟩ := Option.bind_eq_some_iff.mp shows
    simp only [move?, step?, found, Option.bind_some] at moves
    exact change_of_stepOf? found shows moves

theorem step?_clear {s : SingleFlight κ ν ε} {i f : Nat} {c : Caller κ ν ε}
    {result : Option (Except ε ν)} (found : s.callers[i]? = some c)
    (phase : c.phase = .ending f result) :
    s.step? i .clear = some
      ({ s with inAir := s.inAir.erase c.key }.withPhase i c (.publishing f result)) := by
  simp only [step?, found, Option.bind_some, stepOf?, phase]

theorem step?_publish {s : SingleFlight κ ν ε} {i f : Nat} {c : Caller κ ν ε}
    {result : Option (Except ε ν)} (found : s.callers[i]? = some c)
    (phase : c.phase = .publishing f result) :
    s.step? i .publish = some
      ({ s with flights := s.flights.set f (.ofResult result) }.withPhase i c
        (.ended result)) := by
  cases result <;> simp only [step?, found, Option.bind_some, stepOf?, phase, Phase.ended]

theorem Run.induct {motive : List (Event κ ν ε) → SingleFlight κ ν ε → Prop}
    (start : motive [] empty)
    (change : ∀ past s e t, Run past s → motive past s → Change s e t → motive (past ++ [e]) t)
    {past : List (Event κ ν ε)} {s : SingleFlight κ ν ε} (h : Run past s) : motive past s := by
  induction h with
  | start => exact start
  | move m run shows moves ih => exact change _ _ _ _ run ih (change_of_move? shows moves)

/-- Every event of a run is that of a change in the state that the events before it led to. -/
theorem Run.change_at {past : List (Event κ ν ε)} {s : SingleFlight κ ν ε} (h : Run past s)
    {before after : List (Event κ ν ε)} {e : Event κ ν ε} (hPast : past = before ++ e :: after) :
    ∃ t u, Run before t ∧ Change t e u := by
  revert before after e
  refine h.induct (motive := fun past _ => ∀ {before after e}, past = before ++ e :: after →
    ∃ t u, Run before t ∧ Change t e u) ?_ ?_
  · intro before after e hPast
    simp at hPast
  · intro past s d t run ih change before after e hPast
    rcases List.eq_nil_or_concat after with rfl | ⟨rest, last, rfl⟩
    · obtain ⟨rfl, hLast⟩ := List.append_inj' hPast rfl
      cases hLast
      exact ⟨s, t, run, change⟩
    · rw [List.concat_eq_append, ← List.cons_append, ← List.append_assoc] at hPast
      exact ih (List.append_inj' hPast rfl).1

/-- Makes moves one after another and tells their events. -/
def play? (s : SingleFlight κ ν ε) :
    List (Move κ ν ε) → Option (List (Event κ ν ε) × SingleFlight κ ν ε)
  | [] => some ([], s)
  | m :: moves => do
    let e ← s.event? m
    let t ← s.move? m
    let (events, u) ← t.play? moves
    return (e :: events, u)

theorem Run.append {past events : List (Event κ ν ε)} {s t : SingleFlight κ ν ε}
    {moves : List (Move κ ν ε)} (h : Run past s) (played : s.play? moves = some (events, t)) :
    Run (past ++ events) t := by
  induction moves generalizing past events s with
  | nil =>
    cases played
    rwa [List.append_nil]
  | cons m moves ih =>
    obtain ⟨e, shows, hRest⟩ := Option.bind_eq_some_iff.mp played
    obtain ⟨u, hMove, hRest⟩ := Option.bind_eq_some_iff.mp hRest
    obtain ⟨⟨rest, v⟩, hPlay, hResult⟩ := Option.bind_eq_some_iff.mp hRest
    cases hResult
    rw [List.append_cons]
    exact ih (.move m h shows hMove) hPlay

end Enrollment.SingleFlight
