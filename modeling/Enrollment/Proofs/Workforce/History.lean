import Enrollment.Issuing.Workforce
import Enrollment.Proofs.Dispatch.Story
import Enrollment.Proofs.Procedure.Completion
import Enrollment.Proofs.SingleFlight.Agreement

/-! # Histories of workforces

A run of a workforce is a run of its dispatch and a run of its tracker, whose events come in between
each other. What joins the two is that a worker calls the tracker for the order that it holds, and
answers with what its call has returned.

Nothing breaks off in a run, and a caller of the tracker that does the work does that of its order.
-/

namespace Enrollment.Workforce

inductive Event where
  | dispatch (event : Dispatch.Event JobEnd)
  | called (worker : Nat) (entry : Dispatch.Entry) (call : Nat)
  | flight (event : SingleFlight.Event Int Outcome JobError)

namespace Event

def dispatch? : Event → Option (Dispatch.Event JobEnd)
  | dispatch event => some event
  | called _ _ _ | flight _ => none

def flight? : Event → Option (SingleFlight.Event Int Outcome JobError)
  | flight event => some event
  | called _ entry call => some (.called call entry.order)
  | dispatch _ => none

end Event

def dispatchEvent? (w : Workforce) (m : Dispatch.Move JobEnd) : Option Event :=
  (w.dispatch.event? m).map .dispatch

def event? (w : Workforce) : Move → Option Event
  | .submit order priority => w.dispatchEvent? (.submit order priority)
  | .shutdown => w.dispatchEvent? .shutdown
  | .look i => w.dispatchEvent? (.step i .look)
  | .take i => w.dispatchEvent? (.step i .take)
  | .call i =>
    match w.dispatch.workers[i]?, w.calls.get? i with
    | some (.busy entry), none => some (.called i entry w.tracker.callers.length)
    | _, _ => none
  | .track call step => (w.tracker.event? (.step call step)).map .flight
  | .answer i =>
    match w.phase? i with
    | some (.returned result) => w.dispatchEvent? (.step i (.finish result))
    | _ => none
  | .break i =>
    match w.phase? i with
    | some .dropped => w.dispatchEvent? (.step i .break)
    | _ => none

/-- Whether a result is what processing an order comes to, with some surroundings. -/
def IsResult (polling : Polling) (order : Int) (result : JobEnd) : Prop :=
  ∃ trace, Procedure.Runs (Job.process polling order) trace result

/-- Whether a move keeps to the work: nothing breaks off, and the work that a caller ends is that of
its order. -/
def Sound (polling : Polling) (w : Workforce) : Move → Prop
  | .break _ | .track _ .drop => False
  | .track call (.finish result) =>
    ∃ c, w.tracker.callers[call]? = some c ∧ IsResult polling c.key result
  | _ => True

inductive Run (polling : Polling) (workers capacity : Nat) : List Event → Workforce → Prop where
  | new : Run polling workers capacity [] (Workforce.new workers capacity)
  | move {past : List Event} {w v : Workforce} {event : Event} (m : Move)
    (run : Run polling workers capacity past w) (sound : w.Sound polling m)
    (shows : w.event? m = some event) (moves : w.move? m = some v) :
    Run polling workers capacity (past ++ [event]) v

def dispatches (past : List Event) : List (Dispatch.Event JobEnd) :=
  past.filterMap Event.dispatch?

def flights (past : List Event) : List (SingleFlight.Event Int Outcome JobError) :=
  past.filterMap Event.flight?

section

variable {polling : Polling} {workers capacity : Nat} {past : List Event} {w v : Workforce}
  {event : Event}

theorem mem_dispatches {e : Dispatch.Event JobEnd} :
    e ∈ dispatches past ↔ .dispatch e ∈ past := by
  rw [dispatches, List.mem_filterMap]
  constructor
  · rintro ⟨event, hMem, hEvent⟩
    cases event with
    | dispatch d =>
      cases hEvent
      exact hMem
    | called | flight => cases hEvent
  · intro hMem
    exact ⟨_, hMem, rfl⟩

theorem mem_of_filter_eq {p : Dispatch.Event JobEnd → Bool} {e : Dispatch.Event JobEnd}
    {events : List (Dispatch.Event JobEnd)} (h : (dispatches past).filter p = events)
    (hMem : e ∈ events) : .dispatch e ∈ past :=
  mem_dispatches.mp (List.mem_filter.mp (h ▸ hMem)).1

theorem called_mem_flights {i call : Nat} {entry : Dispatch.Entry}
    (h : .called i entry call ∈ past) : .called call entry.order ∈ flights past :=
  List.mem_filterMap.mpr ⟨_, h, rfl⟩

theorem mem_flights_concat {e : SingleFlight.Event Int Outcome JobError}
    (h : e ∈ flights past) : e ∈ flights (past ++ [event]) := by
  rw [flights, List.filterMap_append]
  exact List.mem_append_left _ h

theorem isSome_dispatchEvent? (w : Workforce) (m : Dispatch.Move JobEnd) :
    (w.dispatchEvent? m).isSome = (w.dispatched m).isSome := by
  simp only [dispatchEvent?, dispatched, Option.isSome_map, Dispatch.isSome_event?]

theorem isSome_event? (w : Workforce) (m : Move) : (w.event? m).isSome = (w.move? m).isSome := by
  cases m with
  | submit | shutdown | look | take => exact isSome_dispatchEvent? w _
  | call i =>
    simp only [event?, move?]
    cases w.dispatch.workers[i]? with
    | none => rfl
    | some worker =>
      cases w.calls.get? i <;> cases worker <;> rfl
  | track call step =>
    simp only [event?, move?, Option.isSome_map, SingleFlight.isSome_event?]
    rfl
  | answer i =>
    simp only [event?, move?]
    cases w.phase? i with
    | none => rfl
    | some phase =>
      cases phase with
      | returned result => exact isSome_dispatchEvent? (w.withoutCall i) _
      | _ => rfl
  | «break» i =>
    simp only [event?, move?]
    cases w.phase? i with
    | none => rfl
    | some phase =>
      cases phase with
      | dropped => exact isSome_dispatchEvent? (w.withoutCall i) _
      | _ => rfl

/-! ### What a move can do -/

def SoundFlight (polling : Polling) (tracker : OrderFlights) :
    SingleFlight.Event Int Outcome JobError → Prop
  | .worked call _ (some result) =>
    ∃ c, tracker.callers[call]? = some c ∧ IsResult polling c.key result
  | .called _ _ | .worked _ _ none | .left _ => False
  | _ => True

/-- All that a sound move can do, by the event that it leaves. -/
inductive Change (polling : Polling) (w : Workforce) : Event → Workforce → Prop where
  | dispatched {e : Dispatch.Event JobEnd} {d : Dispatch JobEnd}
    (change : Dispatch.Change w.dispatch e d) (kept : e.frees? = none) :
    Change polling w (.dispatch e) { w with dispatch := d }
  | called {i : Nat} {entry : Dispatch.Entry} (found : w.dispatch.workers[i]? = some (.busy entry))
    (free : w.calls.get? i = none) :
    Change polling w (.called i entry w.tracker.callers.length) { w with
      tracker := (w.tracker.call entry.order).1
      calls := w.calls.put i w.tracker.callers.length }
  | tracked {e : SingleFlight.Event Int Outcome JobError} {s : OrderFlights}
    (change : SingleFlight.Change w.tracker e s) (sound : SoundFlight polling w.tracker e) :
    Change polling w (.flight e) { w with tracker := s }
  | answered {i : Nat} {entry : Dispatch.Entry} {call : Nat} {result : JobEnd}
    {d : Dispatch JobEnd} (change : Dispatch.Change w.dispatch (.answered i entry result) d)
    (calling : w.calls.get? i = some call)
    (returned : w.tracker.phase? call = some (.returned result)) :
    Change polling w (.dispatch (.answered i entry result))
      { w.withoutCall i with dispatch := d }

theorem change_of_dispatched {m : Dispatch.Move JobEnd} (shows : w.dispatchEvent? m = some event)
    (moves : w.dispatched m = some v) (hFinish : ∀ i result, m ≠ .step i (.finish result))
    (hBreak : ∀ i, m ≠ .step i .break) : Change polling w event v := by
  obtain ⟨e, hEvent, rfl⟩ := Option.map_eq_some_iff.mp shows
  obtain ⟨d, hMove, rfl⟩ := Option.map_eq_some_iff.mp moves
  exact .dispatched (Dispatch.change_of_move? hEvent hMove)
    (Dispatch.frees?_of_event? hEvent hFinish hBreak)

theorem soundFlight_of_event? {call : Nat} {step : SingleFlight.Step Outcome JobError}
    {e : SingleFlight.Event Int Outcome JobError} (sound : w.Sound polling (.track call step))
    (shows : w.tracker.event? (.step call step) = some e) : SoundFlight polling w.tracker e := by
  obtain ⟨c, found, shows⟩ := Option.bind_eq_some_iff.mp shows
  unfold SingleFlight.eventOf? at shows
  split at shows
  · split at shows <;> cases shows <;> exact trivial
  · cases sound
  · cases shows
    exact sound
  · cases sound
  · cases shows
    exact trivial
  · cases shows
    exact trivial
  · split at shows <;> cases shows <;> exact trivial
  · cases sound
  · cases shows

theorem change_of_move? {m : Move} (sound : w.Sound polling m) (shows : w.event? m = some event)
    (moves : w.move? m = some v) : Change polling w event v := by
  cases m with
  | submit | shutdown | look | take =>
    exact change_of_dispatched shows moves (by intro i result h; cases h) (by intro i h; cases h)
  | call i =>
    simp only [event?, move?] at shows moves
    split at shows
    · next found free =>
      rw [found, free] at moves
      cases shows
      cases moves
      exact .called found free
    · cases shows
  | track call step =>
    obtain ⟨e, hEvent, rfl⟩ := Option.map_eq_some_iff.mp shows
    obtain ⟨s, hMove, rfl⟩ := Option.map_eq_some_iff.mp moves
    exact .tracked (SingleFlight.change_of_move? hEvent hMove) (soundFlight_of_event? sound hEvent)
  | answer i =>
    simp only [event?, move?] at shows moves
    split at shows
    · next hPhase =>
      rw [hPhase] at moves
      obtain ⟨call, calling, returned⟩ := Option.bind_eq_some_iff.mp hPhase
      obtain ⟨e, hEvent, rfl⟩ := Option.map_eq_some_iff.mp shows
      obtain ⟨d, hMove, rfl⟩ := Option.map_eq_some_iff.mp moves
      obtain ⟨entry, rfl⟩ := Dispatch.event?_finish hEvent
      exact .answered (Dispatch.change_of_move? hEvent hMove) calling returned
    · cases shows
  | «break» i => cases sound

theorem Run.induct {motive : List Event → Workforce → Prop}
    (start : motive [] (Workforce.new workers capacity))
    (change : ∀ past w event v, Run polling workers capacity past w → motive past w →
      Change polling w event v → motive (past ++ [event]) v)
    (h : Run polling workers capacity past w) : motive past w := by
  induction h with
  | new => exact start
  | move m run sound shows moves ih =>
    exact change _ _ _ _ run ih (change_of_move? sound shows moves)

/-! ### The parts of a run -/

theorem dispatches_concat (past : List Event) (event : Event) :
    dispatches (past ++ [event]) = dispatches past ++ event.dispatch?.toList := by
  rw [dispatches, List.filterMap_append]
  cases event <;> rfl

theorem flights_concat (past : List Event) (event : Event) :
    flights (past ++ [event]) = flights past ++ event.flight?.toList := by
  rw [flights, List.filterMap_append]
  cases event <;> rfl

theorem parts_of_dispatched {m : Dispatch.Move JobEnd}
    (dispatch : Dispatch.Run workers capacity (dispatches past) w.dispatch)
    (tracker : SingleFlight.Run (flights past) w.tracker)
    (shows : w.dispatchEvent? m = some event) (moves : w.dispatched m = some v) :
    Dispatch.Run workers capacity (dispatches (past ++ [event])) v.dispatch ∧
      SingleFlight.Run (flights (past ++ [event])) v.tracker := by
  obtain ⟨e, hEvent, rfl⟩ := Option.map_eq_some_iff.mp shows
  obtain ⟨d, hMove, rfl⟩ := Option.map_eq_some_iff.mp moves
  rw [dispatches_concat, flights_concat]
  exact ⟨.move m dispatch hEvent hMove, by rwa [← List.append_nil (flights past)] at tracker⟩

/-- The events of the dispatch are those of a run of it, and so are those of the tracker, whatever
comes in between. -/
theorem Run.parts (h : Run polling workers capacity past w) :
    Dispatch.Run workers capacity (dispatches past) w.dispatch ∧
      SingleFlight.Run (flights past) w.tracker := by
  induction h with
  | new => exact ⟨.new, .start⟩
  | @move past w v event m run sound shows moves ih =>
    obtain ⟨dispatch, tracker⟩ := ih
    cases m with
    | submit | shutdown | look | take => exact parts_of_dispatched dispatch tracker shows moves
    | call i =>
      simp only [event?, move?] at shows moves
      split at shows
      · next entry found free =>
        rw [found, free] at moves
        cases shows
        cases moves
        rw [dispatches_concat, flights_concat]
        refine ⟨by rwa [← List.append_nil (dispatches past)] at dispatch, ?_⟩
        exact .move (.call entry.order) tracker rfl rfl
      · cases shows
    | track call step =>
      obtain ⟨e, hEvent, rfl⟩ := Option.map_eq_some_iff.mp shows
      obtain ⟨s, hMove, rfl⟩ := Option.map_eq_some_iff.mp moves
      rw [dispatches_concat, flights_concat]
      refine ⟨by rwa [← List.append_nil (dispatches past)] at dispatch, ?_⟩
      exact .move (.step call step) tracker hEvent hMove
    | answer i =>
      simp only [event?, move?] at shows moves
      split at shows
      · next hPhase =>
        rw [hPhase] at moves
        exact parts_of_dispatched (w := w.withoutCall i) dispatch tracker shows moves
      · cases shows
    | «break» i => cases sound

def play? (w : Workforce) : List Move → Option (List Event × Workforce)
  | [] => some ([], w)
  | m :: moves => do
    let event ← w.event? m
    let v ← w.move? m
    let (events, u) ← v.play? moves
    return (event :: events, u)

/-- Moves that need no more than that they can be made to be sound. -/
def Move.isPlain : Move → Bool
  | submit _ _ | shutdown | look _ | take _ | call _ | answer _ => true
  | track _ .register | track _ .clear | track _ .publish | track _ .look => true
  | track _ (.finish _) | track _ .drop | «break» _ => false

theorem sound_of_isPlain {m : Move} (h : m.isPlain = true) : w.Sound polling m := by
  cases m with
  | submit | shutdown | look | take | call | answer => exact trivial
  | track call step =>
    cases step with
    | register | clear | publish | look => exact trivial
    | finish | drop => cases h
  | «break» => cases h

theorem Run.append {moves : List Move} {events : List Event}
    (h : Run polling workers capacity past w) (played : w.play? moves = some (events, v))
    (plain : moves.all Move.isPlain = true) : Run polling workers capacity (past ++ events) v := by
  induction moves generalizing past w events with
  | nil =>
    cases played
    rwa [List.append_nil]
  | cons m moves ih =>
    obtain ⟨event, shows, hRest⟩ := Option.bind_eq_some_iff.mp played
    obtain ⟨u, hMove, hRest⟩ := Option.bind_eq_some_iff.mp hRest
    obtain ⟨⟨rest, last⟩, hPlay, hResult⟩ := Option.bind_eq_some_iff.mp hRest
    cases hResult
    rw [List.all_cons, Bool.and_eq_true] at plain
    rw [List.append_cons]
    exact ih (.move m h (sound_of_isPlain plain.1) shows hMove) hPlay plain.2

theorem play?_cons {m : Move} {moves : List Move} {events : List Event} {u : Workforce}
    (shows : w.event? m = some event) (moved : w.move? m = some v)
    (played : v.play? moves = some (events, u)) :
    w.play? (m :: moves) = some (event :: events, u) := by
  simp only [play?, shows, moved, played, Option.bind_eq_bind, Option.bind_some]
  rfl

end

end Enrollment.Workforce
