import Enrollment.Issuing.Dispatch

/-! # Histories of dispatches

Every move of those who hand in orders and of those who take them leaves an event. `Change` says
once what a move can do; everything that is proved of runs goes through it.
-/

namespace Enrollment.Dispatch

inductive Event (ρ : Type) where
  | accepted (ticket : Nat) (order : Int) (priority : Priority)
  | signalled
  | looked (worker : Nat)
  | took (worker : Nat) (entry : Entry) (priority : Priority)
  | stopped (worker : Nat)
  | answered (worker : Nat) (entry : Entry) (result : ρ)
  | broke (worker : Nat) (entry : Entry)

/-- The worker that an event frees of its order. -/
def Event.frees? {ρ : Type} : Event ρ → Option Nat
  | answered i _ _ | broke i _ => some i
  | accepted _ _ _ | signalled | looked _ | took _ _ _ | stopped _ => none

variable {ρ : Type}

/-- The entry that is first in line, and the queue that it is in. -/
def next? (d : Dispatch ρ) : Option (Entry × Priority) :=
  match d.high, d.low with
  | entry :: _, _ => some (entry, .high)
  | [], entry :: _ => some (entry, .low)
  | [], [] => none

def event? (d : Dispatch ρ) : Move ρ → Option (Event ρ)
  | .submit order priority =>
    match d.submit order priority with
    | .accepted ticket _ => some (.accepted ticket order priority)
    | .closed | .full => none
  | .shutdown => some .signalled
  | .step i step =>
    match d.workers[i]?, step with
    | some .idle, .look => if d.workers.contains .looking then none else some (.looked i)
    | some .looking, .take =>
      if d.shutdown then some (.stopped i)
      else d.next?.map fun (entry, priority) => .took i entry priority
    | some (.busy entry), .finish result => some (.answered i entry result)
    | some (.busy entry), .break => some (.broke i entry)
    | _, _ => none

inductive Run (workers capacity : Nat) : List (Event ρ) → Dispatch ρ → Prop where
  | new : Run workers capacity [] (Dispatch.new workers capacity)
  | move {past : List (Event ρ)} {d e : Dispatch ρ} {event : Event ρ} (m : Move ρ)
    (run : Run workers capacity past d) (shows : d.event? m = some event)
    (moves : d.move? m = some e) : Run workers capacity (past ++ [event]) e

/-- All that a move can do, by the event that it leaves. -/
inductive Change (d : Dispatch ρ) : Event ρ → Dispatch ρ → Prop where
  | accepted {order : Int} {priority : Priority} (isOpen : d.isClosed = false)
    (room : (d.queue priority).length < d.capacity) :
    Change d (.accepted d.tickets order priority)
      { d.withQueue (d.queue priority ++ [⟨d.tickets, order⟩]) priority with
        tickets := d.tickets + 1 }
  | signalled : Change d .signalled { d with shutdown := true }
  | looked {i : Nat} (found : d.workers[i]? = some .idle) (free : .looking ∉ d.workers) :
    Change d (.looked i) (d.withWorker i .looking)
  | took {i : Nat} {entry : Entry} {rest : List Entry} {priority : Priority}
    (found : d.workers[i]? = some .looking) (going : d.shutdown = false)
    (first : d.queue priority = entry :: rest) (none_above : priority = .low → d.high = []) :
    Change d (.took i entry priority) ((d.withQueue rest priority).withWorker i (.busy entry))
  | stopped {i : Nat} (found : d.workers[i]? = some .looking) (shut : d.shutdown = true) :
    Change d (.stopped i) (d.withWorker i .stopped).close
  | answered {i : Nat} {entry : Entry} (found : d.workers[i]? = some (.busy entry)) (result : ρ) :
    Change d (.answered i entry result)
      { d.withWorker i .idle with ended := d.ended.put entry.ticket (some result) }
  | broke {i : Nat} {entry : Entry} (found : d.workers[i]? = some (.busy entry)) :
    Change d (.broke i entry) ((d.giveUp [entry]).withWorker i .broken).close

section

variable {d e : Dispatch ρ} {event : Event ρ}

theorem change_of_submit {order : Int} {priority : Priority} {ticket : Nat}
    (h : d.submit order priority = .accepted ticket e) :
    Change d (.accepted ticket order priority) e := by
  unfold submit at h
  split at h
  · cases h
  · next hOpen =>
    split at h
    · cases h
    · next hRoom =>
      cases h
      exact .accepted (Bool.eq_false_iff.mpr hOpen) (Nat.lt_of_not_le hRoom)

theorem change_of_take {i : Nat} (found : d.workers[i]? = some .looking)
    (shows : d.event? (.step i .take) = some event) (moves : d.take? i = some e) :
    Change d event e := by
  simp only [event?, found] at shows
  unfold take? at moves
  by_cases hShut : d.shutdown = true
  · rw [if_pos hShut] at shows moves
    cases shows
    cases moves
    exact .stopped found hShut
  · rw [if_neg hShut] at shows moves
    have hGoing : d.shutdown = false := Bool.eq_false_iff.mpr hShut
    split at moves
    · next hHigh =>
      simp only [next?, hHigh, Option.map_some] at shows
      cases shows
      cases moves
      exact .took found hGoing hHigh nofun
    · next hHigh hLow =>
      simp only [next?, hHigh, hLow, Option.map_some] at shows
      cases shows
      cases moves
      exact .took found hGoing hLow fun _ => hHigh
    · cases moves

theorem change_of_move? {m : Move ρ} (shows : d.event? m = some event)
    (moves : d.move? m = some e) : Change d event e := by
  cases m with
  | submit order priority =>
    simp only [event?] at shows
    simp only [move?] at moves
    cases hSubmit : d.submit order priority with
    | closed | full =>
      rw [hSubmit] at moves
      cases moves
    | accepted ticket f =>
      rw [hSubmit] at shows moves
      cases shows
      cases moves
      exact change_of_submit hSubmit
  | shutdown =>
    cases shows
    cases moves
    exact .signalled
  | step i step =>
    simp only [move?, step?] at moves
    split at moves
    · next found =>
      simp only [event?, found] at shows
      split at moves
      · cases moves
      · next hFree =>
        rw [if_neg hFree] at shows
        cases shows
        cases moves
        exact .looked found (by simpa using hFree)
    · next found => exact change_of_take found shows moves
    · next found =>
      simp only [event?, found] at shows
      cases shows
      cases moves
      exact .answered found _
    · next found =>
      simp only [event?, found] at shows
      cases shows
      cases moves
      exact .broke found
    · cases moves

/-- Every move that can be made leaves an event. -/
theorem isSome_event? (d : Dispatch ρ) (m : Move ρ) : (d.event? m).isSome = (d.move? m).isSome := by
  cases m with
  | submit order priority =>
    simp only [event?, move?]
    cases d.submit order priority <;> rfl
  | shutdown => rfl
  | step i step =>
    simp only [event?, move?, step?]
    cases d.workers[i]? with
    | none => rfl
    | some worker =>
      cases worker with
      | idle =>
        cases step with
        | look =>
          simp only []
          split <;> rfl
        | _ => rfl
      | looking =>
        cases step with
        | take =>
          simp only [take?, next?]
          split
          · rfl
          · cases d.high with
            | cons => rfl
            | nil => cases d.low <;> rfl
        | _ => rfl
      | busy entry => cases step <;> rfl
      | stopped | broken => rfl

theorem frees?_of_event? {m : Move ρ} (shows : d.event? m = some event)
    (hFinish : ∀ i result, m ≠ .step i (.finish result)) (hBreak : ∀ i, m ≠ .step i .break) :
    event.frees? = none := by
  cases m with
  | submit order priority =>
    simp only [event?] at shows
    split at shows <;> cases shows
    rfl
  | shutdown =>
    cases shows
    rfl
  | step i step =>
    simp only [event?] at shows
    split at shows
    · split at shows <;> cases shows
      rfl
    · split at shows
      · cases shows
        rfl
      · obtain ⟨first, -, rfl⟩ := Option.map_eq_some_iff.mp shows
        rfl
    · exact absurd rfl (hFinish i _)
    · exact absurd rfl (hBreak i)
    · cases shows

theorem event?_finish {i : Nat} {result : ρ}
    (shows : d.event? (.step i (.finish result)) = some event) :
    ∃ entry, event = .answered i entry result := by
  simp only [event?] at shows
  split at shows
  · next hStep => cases hStep
  · next hStep => cases hStep
  · next hStep =>
    cases hStep
    cases shows
    exact ⟨_, rfl⟩
  · next hStep => cases hStep
  · cases shows

/-- Who looks into the queues takes what is first in line, unless shutdown comes before it. -/
theorem exists_take {i : Nat} {entry : Entry} {priority : Priority}
    (found : d.workers[i]? = some .looking) (going : d.shutdown = false)
    (first : d.next? = some (entry, priority)) :
    ∃ e, d.event? (.step i .take) = some (.took i entry priority) ∧
      d.move? (.step i .take) = some e ∧ e.workers[i]? = some (.busy entry) := by
  have hlt := (List.getElem?_eq_some_iff.mp found).1
  have hShows : d.event? (.step i .take) = some (.took i entry priority) := by
    simp only [event?, found, going, first, Bool.false_eq_true, if_false, Option.map_some]
  have hMove : d.move? (.step i .take) = d.take? i := by simp only [move?, step?, found]
  rw [hMove]
  unfold take?
  rw [if_neg (by rw [going]; exact Bool.false_ne_true)]
  cases hHigh : d.high with
  | cons head rest =>
    rw [next?, hHigh] at first
    cases first
    exact ⟨_, hShows, rfl, List.getElem?_set_self hlt⟩
  | nil =>
    cases hLow : d.low with
    | cons head rest =>
      rw [next?, hHigh, hLow] at first
      cases first
      exact ⟨_, hShows, rfl, List.getElem?_set_self hlt⟩
    | nil =>
      -- Nobody is in line.
      rw [next?, hHigh, hLow] at first
      cases first

theorem Run.induct {workers capacity : Nat} {motive : List (Event ρ) → Dispatch ρ → Prop}
    (start : motive [] (Dispatch.new workers capacity))
    (change : ∀ past d event e, Run workers capacity past d → motive past d → Change d event e →
      motive (past ++ [event]) e)
    {past : List (Event ρ)} (h : Run workers capacity past d) : motive past d := by
  induction h with
  | new => exact start
  | move m run shows moves ih => exact change _ _ _ _ run ih (change_of_move? shows moves)

/-- Every event of a run is that of a change in the dispatch that the events before it led to. -/
theorem Run.change_at {workers capacity : Nat} {past : List (Event ρ)}
    (h : Run workers capacity past d) {before after : List (Event ρ)}
    (hPast : past = before ++ event :: after) :
    ∃ b c, Run workers capacity before b ∧ Change b event c := by
  revert before after event
  refine h.induct (motive := fun past _ => ∀ {event before after},
    past = before ++ event :: after → ∃ b c, Run workers capacity before b ∧ Change b event c) ?_ ?_
  · intro event before after hPast
    simp at hPast
  · intro past d last e run ih change event before after hPast
    rcases List.eq_nil_or_concat after with rfl | ⟨rest, last, rfl⟩
    · obtain ⟨rfl, hLast⟩ := List.append_inj' hPast rfl
      cases hLast
      exact ⟨d, e, run, change⟩
    · rw [List.concat_eq_append, ← List.cons_append, ← List.append_assoc] at hPast
      exact ih (List.append_inj' hPast rfl).1

/-- Makes moves one after another and tells their events. -/
def play? (d : Dispatch ρ) : List (Move ρ) → Option (List (Event ρ) × Dispatch ρ)
  | [] => some ([], d)
  | m :: moves => do
    let event ← d.event? m
    let e ← d.move? m
    let (events, last) ← e.play? moves
    return (event :: events, last)

theorem Run.append {workers capacity : Nat} {past events : List (Event ρ)} {moves : List (Move ρ)}
    (h : Run workers capacity past d) (played : d.play? moves = some (events, e)) :
    Run workers capacity (past ++ events) e := by
  induction moves generalizing past events d with
  | nil =>
    cases played
    rwa [List.append_nil]
  | cons m moves ih =>
    obtain ⟨event, shows, hRest⟩ := Option.bind_eq_some_iff.mp played
    obtain ⟨next, hMove, hRest⟩ := Option.bind_eq_some_iff.mp hRest
    obtain ⟨⟨rest, last⟩, hPlay, hResult⟩ := Option.bind_eq_some_iff.mp hRest
    cases hResult
    rw [List.append_cons]
    exact ih (.move m h shows hMove) hPlay

end

end Enrollment.Dispatch
