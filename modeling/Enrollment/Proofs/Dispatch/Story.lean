import Enrollment.Proofs.Dispatch.Places

/-! # What becomes of a ticket

The events of a ticket tell where it is. It is given out with its order, taken by one worker, and
answered by that worker or lost with it. A ticket that is given up in its queue leaves no event.
-/

namespace Enrollment.Dispatch

variable {ρ : Type}

namespace Event

def ticket? : Event ρ → Option Nat
  | accepted ticket _ _ => some ticket
  | took _ entry _ | answered _ entry _ | broke _ entry => some entry.ticket
  | signalled | looked _ | stopped _ => none

/-- Where the ticket of an event is after it. -/
def place? : Event ρ → Option (Place ρ)
  | accepted _ order priority => some (.queued order priority)
  | took i entry _ => some (.held entry.order i)
  | answered _ _ result => some (.ended (some result))
  | broke _ _ => some (.ended none)
  | signalled | looked _ | stopped _ => none

def isOf (ticket : Nat) (e : Event ρ) : Bool := e.ticket? = some ticket

def isTakeOf (ticket : Nat) : Event ρ → Bool
  | took _ entry _ => entry.ticket = ticket
  | accepted _ _ _ | signalled | looked _ | stopped _ | answered _ _ _ | broke _ _ => false

def isAnswerTo (ticket : Nat) : Event ρ → Bool
  | answered _ entry _ => entry.ticket = ticket
  | accepted _ _ _ | signalled | looked _ | took _ _ _ | stopped _ | broke _ _ => false

theorem exists_place {event : Event ρ} {ticket : Nat} (h : event.ticket? = some ticket) :
    ∃ place, event.place? = some place := by
  cases event with
  | accepted | took | answered | broke => exact ⟨_, rfl⟩
  | signalled | looked | stopped => cases h

theorem isOf_of_isTakeOf {event : Event ρ} {ticket : Nat} (h : event.isTakeOf ticket = true) :
    event.isOf ticket = true := by
  cases event with
  | took => simpa [isTakeOf, isOf, ticket?] using h
  | _ => cases h

theorem isOf_of_isAnswerTo {event : Event ρ} {ticket : Nat} (h : event.isAnswerTo ticket = true) :
    event.isOf ticket = true := by
  cases event with
  | answered => simpa [isAnswerTo, isOf, ticket?] using h
  | _ => cases h

end Event

/-- What has happened to a ticket, by the place where it is. -/
inductive Story (ticket : Nat) : Place ρ → List (Event ρ) → Prop where
  | accepted (order : Int) (priority : Priority) :
    Story ticket (.queued order priority) [.accepted ticket order priority]
  | took {order : Int} {priority : Priority} {events : List (Event ρ)} (i : Nat)
    (h : Story ticket (.queued order priority) events) :
    Story ticket (.held order i) (events ++ [.took i ⟨ticket, order⟩ priority])
  | answered {order : Int} {i : Nat} {events : List (Event ρ)} (result : ρ)
    (h : Story ticket (.held order i) events) :
    Story ticket (.ended (some result)) (events ++ [.answered i ⟨ticket, order⟩ result])
  | broke {order : Int} {i : Nat} {events : List (Event ρ)}
    (h : Story ticket (.held order i) events) :
    Story ticket (.ended none) (events ++ [.broke i ⟨ticket, order⟩])
  | givenUp {order : Int} {priority : Priority} {events : List (Event ρ)}
    (h : Story ticket (.queued order priority) events) : Story ticket (.ended none) events

namespace Story

variable {ticket : Nat} {order : Int} {events : List (Event ρ)}

theorem of_queued {priority : Priority} (h : Story ticket (.queued order priority) events) :
    events = [.accepted ticket order priority] := by
  cases h
  rfl

theorem of_held {i : Nat} (h : Story ticket (.held order i) events) : ∃ priority,
    events = [.accepted ticket order priority, .took i ⟨ticket, order⟩ priority] := by
  cases h with
  | @took _ priority _ _ h =>
    rw [h.of_queued]
    exact ⟨priority, rfl⟩

theorem of_answered {result : ρ} (h : Story ticket (.ended (some result)) events) :
    ∃ order priority i, events = [.accepted ticket order priority,
      .took i ⟨ticket, order⟩ priority, .answered i ⟨ticket, order⟩ result] := by
  cases h with
  | @answered order i _ _ h =>
    obtain ⟨priority, rfl⟩ := h.of_held
    exact ⟨order, priority, i, rfl⟩

theorem of_ended (h : Story ticket (.ended none) events) :
    (∃ order priority, events = [.accepted ticket order priority]) ∨
      ∃ order priority i, events = [.accepted ticket order priority,
        .took i ⟨ticket, order⟩ priority, .broke i ⟨ticket, order⟩] := by
  cases h with
  | @broke order i _ h =>
    obtain ⟨priority, rfl⟩ := h.of_held
    exact .inr ⟨order, priority, i, rfl⟩
  | @givenUp order priority _ h => exact .inl ⟨order, priority, h.of_queued⟩

theorem eq_of_accepted {place : Place ρ} {priority : Priority} (h : Story ticket place events)
    (hAccepted : .accepted ticket order priority ∈ events) :
    events.head? = some (.accepted ticket order priority) := by
  have hHead {order' : Int} {priority' : Priority} {rest : List (Event ρ)}
      (hMem : .accepted ticket order priority ∈ .accepted ticket order' priority' :: rest)
      (hRest : ∀ order priority, .accepted ticket order priority ∉ rest) :
      (Event.accepted ticket order' priority' :: rest).head? =
        some (.accepted ticket order priority) := by
    rcases List.mem_cons.mp hMem with hFirst | hLater
    · exact congrArg some hFirst.symm
    · exact absurd hLater (hRest order priority)
  cases place with
  | queued order' priority' =>
    rw [h.of_queued] at hAccepted ⊢
    exact hHead hAccepted (by simp)
  | held order' i =>
    obtain ⟨priority', rfl⟩ := h.of_held
    exact hHead hAccepted (by simp)
  | ended result =>
    cases result with
    | some result =>
      obtain ⟨order', priority', i, rfl⟩ := h.of_answered
      exact hHead hAccepted (by simp)
    | none =>
      rcases h.of_ended with ⟨order', priority', rfl⟩ | ⟨order', priority', i, rfl⟩ <;>
        exact hHead hAccepted (by simp)

theorem place_of_answer {place : Place ρ} {i : Nat} {entry : Entry} {result : ρ}
    (h : Story ticket place events) (hAnswer : .answered i entry result ∈ events) :
    place = .ended (some result) ∧ ∃ priority, events = [.accepted ticket entry.order priority,
      .took i entry priority, .answered i entry result] := by
  cases place with
  | queued order priority =>
    rw [h.of_queued] at hAnswer
    simp at hAnswer
  | held order i =>
    obtain ⟨priority, rfl⟩ := h.of_held
    simp at hAnswer
  | ended ending =>
    cases ending with
    | some seen =>
      obtain ⟨order, priority, i, rfl⟩ := h.of_answered
      obtain ⟨rfl, rfl, rfl⟩ : _ ∧ _ ∧ _ := by simpa using hAnswer
      exact ⟨rfl, priority, rfl⟩
    | none =>
      rcases h.of_ended with ⟨order, priority, rfl⟩ | ⟨order, priority, i, rfl⟩ <;>
        simp at hAnswer

/-- Whatever becomes of a ticket, it is taken once at most, and answered once at most. -/
theorem countP_le_one {place : Place ρ} (h : Story ticket place events) :
    events.countP (Event.isTakeOf ticket) ≤ 1 ∧ events.countP (Event.isAnswerTo ticket) ≤ 1 := by
  cases place with
  | queued order priority =>
    rw [h.of_queued]
    exact ⟨Nat.zero_le 1, Nat.zero_le 1⟩
  | held order i =>
    obtain ⟨priority, rfl⟩ := h.of_held
    simp [Event.isTakeOf, Event.isAnswerTo]
  | ended result =>
    cases result with
    | some result =>
      obtain ⟨order, priority, i, rfl⟩ := h.of_answered
      simp [Event.isTakeOf, Event.isAnswerTo]
    | none =>
      rcases h.of_ended with ⟨order, priority, rfl⟩ | ⟨order, priority, i, rfl⟩ <;>
        simp [Event.isTakeOf, Event.isAnswerTo]

end Story

section

variable {d e : Dispatch ρ} {event : Event ρ} {past : List (Event ρ)} {ticket : Nat}
  {place : Place ρ}

/-! ### What a move leaves where it is -/

theorem getElem?_withWorker_cases {i j : Nat} {after worker : Worker}
    (h : (d.withWorker i after).workers[j]? = some worker) :
    j = i ∧ worker = after ∨ j ≠ i ∧ d.workers[j]? = some worker := by
  by_cases hIndex : i = j
  · subst hIndex
    have hlt : i < d.workers.length := by
      simpa [withWorker] using (List.getElem?_eq_some_iff.mp h).1
    exact .inl ⟨rfl, Option.some.inj (h.symm.trans (List.getElem?_set_self hlt))⟩
  · exact .inr ⟨Ne.symm hIndex, (List.getElem?_set_ne hIndex).symm.trans h⟩

theorem At.of_withWorker {i : Nat} {after : Worker} (h : (d.withWorker i after).At ticket place)
    (free : ∀ order, after ≠ .busy ⟨ticket, order⟩) : d.At ticket place := by
  cases place with
  | queued order priority => cases priority <;> exact h
  | held order j =>
    rcases getElem?_withWorker_cases h with ⟨-, rfl⟩ | ⟨-, found⟩
    · exact absurd rfl (free order)
    · exact found
  | ended result => exact h

theorem At.of_withQueue {entries : List Entry} {priority : Priority}
    (h : (d.withQueue entries priority).At ticket place)
    (kept : ∀ order, ⟨ticket, order⟩ ∈ entries → ⟨ticket, order⟩ ∈ d.queue priority) :
    d.At ticket place := by
  cases place with
  | queued order priority' =>
    cases priority <;> cases priority' <;> first | exact kept order h | exact h
  | held order j => cases priority <;> exact h
  | ended result => cases priority <;> exact h

theorem At.of_put {t : Nat} {result : Option ρ}
    (h : ({ d with ended := d.ended.put t result } : Dispatch ρ).At ticket place)
    (other : ticket ≠ t) : d.At ticket place := by
  cases place with
  | queued order priority => cases priority <;> exact h
  | held order j => exact h
  | ended result' => exact (Keyed.get?_put_of_ne _ _ other).symm.trans h

theorem get?_giveUp (entries : List Entry) : (d.giveUp entries).ended.get? ticket =
    if ticket ∈ entries.map Entry.ticket then some none else d.ended.get? ticket := by
  induction entries generalizing d with
  | nil => rfl
  | cons entry rest ih =>
    refine (ih (d := { d with ended := d.ended.put entry.ticket none })).trans ?_
    rw [List.map_cons]
    by_cases hRest : ticket ∈ rest.map Entry.ticket
    · rw [if_pos hRest, if_pos (List.mem_cons_of_mem _ hRest)]
    · rw [if_neg hRest]
      by_cases hTicket : ticket = entry.ticket
      · rw [hTicket, if_pos List.mem_cons_self]
        exact Keyed.get?_put_self _ _ _
      · rw [if_neg (by simp only [List.mem_cons, hTicket, hRest, or_self, not_false_eq_true])]
        exact Keyed.get?_put_of_ne _ _ hTicket

theorem isClosed_close : d.close.isClosed = d.isClosed := by rw [isClosed, close_workers, isClosed]

theorem At.of_close (h : d.close.At ticket place) : d.At ticket place ∨
    place = .ended none ∧ d.isClosed = true ∧
      ∃ order priority, d.At ticket (.queued order priority) := by
  unfold close at h
  split at h
  · next hClosed =>
    cases place with
    | queued order priority => cases priority <;> cases h
    | held order i => exact .inl h
    | ended result =>
      have hEnded := (get?_giveUp (d := d) (d.high ++ d.low)).symm.trans h
      split at hEnded
      · next hQueued =>
        cases hEnded
        rw [List.map_append, List.mem_append] at hQueued
        refine .inr ⟨rfl, hClosed, ?_⟩
        rcases hQueued with hHigh | hLow
        · obtain ⟨order, hMem⟩ := mem_queued.mp (show ticket ∈ d.queued .high from hHigh)
          exact ⟨order, .high, hMem⟩
        · obtain ⟨order, hMem⟩ := mem_queued.mp (show ticket ∈ d.queued .low from hLow)
          exact ⟨order, .low, hMem⟩
      · exact .inl hEnded
  · exact .inl h

theorem At.of_accepted {order : Int} {priority : Priority} (other : ticket ≠ d.tickets)
    (h : ({ d.withQueue (d.queue priority ++ [⟨d.tickets, order⟩]) priority with
      tickets := d.tickets + 1 } : Dispatch ρ).At ticket place) : d.At ticket place := by
  have hQueue : (d.withQueue (d.queue priority ++ [⟨d.tickets, order⟩]) priority).At
      ticket place := by
    cases place with
    | queued order' priority' => cases priority' <;> exact h
    | held order' i => exact h
    | ended result => exact h
  refine hQueue.of_withQueue fun order' hMem => ?_
  rcases List.mem_append.mp hMem with hMem | hMem
  · exact hMem
  · obtain ⟨rfl, -⟩ := Entry.mk.inj (List.mem_singleton.mp hMem)
    exact absurd rfl other

/-- A ticket that a move is not about stays where it is, or is given up in its queue. -/
theorem Change.at_other (change : Change d event e) (other : event.ticket? ≠ some ticket)
    (h : e.At ticket place) : d.At ticket place ∨
      place = .ended none ∧ e.isClosed = true ∧
        ∃ order priority, d.At ticket (.queued order priority) := by
  cases change with
  | accepted => exact .inl (h.of_accepted fun hEq => other (congrArg some hEq.symm))
  | signalled =>
    refine .inl ?_
    cases place with
    | queued order priority => cases priority <;> exact h
    | held order i => exact h
    | ended result => exact h
  | looked found => exact .inl (h.of_withWorker nofun)
  | took found going first =>
    have hQueue := h.of_withWorker (by
      rintro order ⟨⟩
      exact other rfl)
    refine .inl (hQueue.of_withQueue fun order hMem => ?_)
    rw [first]
    exact List.mem_cons_of_mem _ hMem
  | @stopped i found =>
    rcases h.of_close with h | ⟨hPlace, hClosed, order, priority, h⟩
    · exact .inl (h.of_withWorker nofun)
    · have hQueued := h.of_withWorker nofun
      exact .inr ⟨hPlace, isClosed_close.trans hClosed, order, priority, hQueued⟩
  | @answered i entry found result =>
    have hTicket : ticket ≠ entry.ticket := fun hEq => other (congrArg some hEq.symm)
    exact .inl ((At.of_put (d := d.withWorker i .idle) h hTicket).of_withWorker fun _ => nofun)
  | @broke i entry found =>
    have hTicket : ticket ≠ entry.ticket := fun hEq => other (congrArg some hEq.symm)
    have hBefore {place : Place ρ} (h : ((d.giveUp [entry]).withWorker i .broken).At ticket place) :
        d.At ticket place :=
      (h.of_withWorker nofun).of_put hTicket
    rcases h.of_close with h | ⟨hPlace, hClosed, order, priority, h⟩
    · exact .inl (hBefore h)
    · exact .inr ⟨hPlace, isClosed_close.trans hClosed, order, priority, hBefore h⟩

theorem At.close_ended (h : d.At ticket (.ended none)) : d.close.At ticket (.ended none) := by
  unfold close
  split
  · refine (get?_giveUp (d := d) (d.high ++ d.low)).trans ?_
    split
    · rfl
    · exact h
  · exact h

theorem Change.at_self (change : Change d event e) (hTicket : event.ticket? = some ticket)
    (hPlace : event.place? = some place) : e.At ticket place := by
  cases change with
  | @accepted order priority =>
    cases hTicket
    cases hPlace
    cases priority <;> exact List.mem_append_right _ List.mem_cons_self
  | signalled | looked | stopped => cases hTicket
  | @took i entry rest priority found =>
    cases hTicket
    cases hPlace
    have hlt := (List.getElem?_eq_some_iff.mp found).1
    exact List.getElem?_set_self (by rwa [withQueue_workers])
  | answered found result =>
    cases hTicket
    cases hPlace
    exact Keyed.get?_put_self _ _ _
  | @broke i entry found =>
    cases hTicket
    cases hPlace
    exact At.close_ended (Keyed.get?_put_self _ _ _)

theorem Change.tickets_le (change : Change d event e) : d.tickets ≤ e.tickets := by
  cases change with
  | accepted => exact Nat.le_succ _
  | took => rw [withWorker_tickets, withQueue_tickets]
  | stopped | broke => rw [close_tickets]; rfl
  | signalled | looked | answered => exact Nat.le_refl _

/-! ### The stories of all tickets -/

structure Told (past : List (Event ρ)) (d : Dispatch ρ) : Prop where
  story : ∀ ticket place, d.At ticket place →
    Story ticket place (past.filter (Event.isOf ticket))
  unborn : ∀ ticket, d.tickets ≤ ticket → past.filter (Event.isOf ticket) = []

namespace Told

theorem filter_self (h : event.ticket? = some ticket) :
    (past ++ [event]).filter (Event.isOf ticket) = past.filter (Event.isOf ticket) ++ [event] := by
  simp [List.filter_append, Event.isOf, h]

theorem filter_other (h : event.ticket? ≠ some ticket) :
    (past ++ [event]).filter (Event.isOf ticket) = past.filter (Event.isOf ticket) := by
  simp [List.filter_append, Event.isOf, h]

/-- An event is the next one in the story of its ticket. -/
theorem story_self (h : Told past d) (change : Change d event e)
    (hTicket : event.ticket? = some ticket) (hPlace : event.place? = some place) :
    Story ticket place (past.filter (Event.isOf ticket) ++ [event]) := by
  cases change with
  | @accepted order priority =>
    cases hTicket
    cases hPlace
    rw [h.unborn _ (Nat.le_refl _)]
    exact .accepted order priority
  | signalled | looked | stopped => cases hTicket
  | @took i entry rest priority found going first =>
    cases hTicket
    cases hPlace
    have hQueued : d.At entry.ticket (.queued entry.order priority) := by
      rw [At, first]
      exact List.mem_cons_self
    exact .took i (h.story _ _ hQueued)
  | @answered i entry found result =>
    cases hTicket
    cases hPlace
    exact .answered result (h.story _ (.held entry.order i) found)
  | @broke i entry found =>
    cases hTicket
    cases hPlace
    exact .broke (h.story _ (.held entry.order i) found)

theorem step (h : Told past d) (located : d.located = Multiset.range d.tickets)
    (change : Change d event e) : Told (past ++ [event]) e := by
  have hLocated := change.located_eq located
  constructor
  · intro ticket place hAt
    by_cases hTicket : event.ticket? = some ticket
    · -- The event tells of one place, and the ticket is in no other.
      obtain ⟨place', hPlace⟩ := Event.exists_place hTicket
      have hSelf := change.at_self hTicket hPlace
      obtain rfl := hAt.unique (hLocated ▸ Multiset.nodup_range _) hSelf
      rw [filter_self hTicket]
      exact h.story_self change hTicket hPlace
    · rw [filter_other hTicket]
      rcases change.at_other hTicket hAt with hBefore | ⟨rfl, -, order, priority, hQueued⟩
      · exact h.story ticket place hBefore
      · exact .givenUp (h.story ticket _ hQueued)
  · intro ticket hLe
    have hTicket : event.ticket? ≠ some ticket := by
      intro hTicket
      obtain ⟨place, hPlace⟩ := Event.exists_place hTicket
      have hMem := mem_located.mpr ⟨place, change.at_self hTicket hPlace⟩
      rw [hLocated, Multiset.mem_range] at hMem
      omega
    rw [filter_other hTicket]
    exact h.unborn ticket (Nat.le_trans change.tickets_le hLe)

end Told

theorem Run.told {workers capacity : Nat} (h : Run workers capacity past d) : Told past d := by
  refine h.induct (motive := fun past d => Told past d) ⟨?_, fun _ _ => rfl⟩
    fun _ _ _ _ run ih change => ih.step run.located_eq change
  intro ticket place hAt
  have hLocated : (Dispatch.new workers capacity : Dispatch ρ).located = _ := Run.new.located_eq
  have hMem := mem_located.mpr ⟨place, hAt⟩
  rw [hLocated] at hMem
  cases hMem

theorem countP_filter_isOf {p : Event ρ → Bool} (h : ∀ event, p event → event.isOf ticket) :
    (past.filter (Event.isOf ticket)).countP p = past.countP p := by
  rw [List.countP_filter]
  refine List.countP_congr fun event _ => ?_
  rw [Bool.and_eq_true]
  exact ⟨And.left, fun hEvent => ⟨hEvent, h event hEvent⟩⟩

theorem Run.countP_le_one {workers capacity : Nat} (h : Run workers capacity past d)
    (ticket : Nat) : past.countP (Event.isTakeOf ticket) ≤ 1 ∧
      past.countP (Event.isAnswerTo ticket) ≤ 1 := by
  rw [← countP_filter_isOf fun _ => Event.isOf_of_isTakeOf,
    ← countP_filter_isOf fun _ => Event.isOf_of_isAnswerTo]
  by_cases hTicket : ticket < d.tickets
  · obtain ⟨place, hAt⟩ := h.exists_at_iff.mpr hTicket
    exact (h.told.story ticket place hAt).countP_le_one
  · rw [h.told.unborn ticket (Nat.le_of_not_lt hTicket)]
    exact ⟨Nat.zero_le 1, Nat.zero_le 1⟩

theorem Run.story_of_mem {workers capacity : Nat} (h : Run workers capacity past d)
    (hMem : event ∈ past) (hTicket : event.ticket? = some ticket) :
    event ∈ past.filter (Event.isOf ticket) ∧ ∃ place, d.At ticket place ∧
      Story ticket place (past.filter (Event.isOf ticket)) := by
  have hOwn : event ∈ past.filter (Event.isOf ticket) :=
    List.mem_filter.mpr ⟨hMem, decide_eq_true hTicket⟩
  have hlt : ticket < d.tickets := by
    refine Nat.lt_of_not_le fun hLe => ?_
    rw [h.told.unborn ticket hLe] at hOwn
    cases hOwn
  obtain ⟨place, hAt⟩ := h.exists_at_iff.mpr hlt
  exact ⟨hOwn, place, hAt, h.told.story ticket place hAt⟩

/-! ### Giving up -/

theorem Change.isClosed (change : Change d event e) (h : d.isClosed = true) :
    e.isClosed = true := by
  have hGone {i : Nat} {worker : Worker} (found : d.workers[i]? = some worker) :
      worker.isGone = true := List.all_eq_true.mp h worker (List.mem_of_getElem? found)
  cases change with
  | accepted isOpen =>
    rw [h] at isOpen
    cases isOpen
  | signalled => exact h
  | looked found | took found | stopped found | answered found | broke found => cases hGone found

theorem Change.busy_kept (change : Change d event e) {i : Nat} {entry : Entry}
    (found : d.workers[i]? = some (.busy entry)) (kept : event.frees? ≠ some i) :
    e.workers[i]? = some (.busy entry) := by
  have hOther {j : Nat} {worker : Worker} (hIndex : j ≠ i) :
      (d.workers.set j worker)[i]? = some (.busy entry) :=
    (List.getElem?_set_ne hIndex).trans found
  have hWaits {j : Nat} {worker : Worker} (foundThen : d.workers[j]? = some worker)
      (free : worker.ticket? = none) : j ≠ i := by
    rintro rfl
    obtain rfl := Option.some.inj (foundThen.symm.trans found)
    cases free
  cases change with
  | accepted => rwa [withQueue_workers]
  | signalled => exact found
  | looked foundThen => exact hOther (hWaits foundThen rfl)
  | took foundThen =>
    rw [withWorker, withQueue_workers]
    exact hOther (hWaits foundThen rfl)
  | stopped foundThen =>
    rw [close_workers]
    exact hOther (hWaits foundThen rfl)
  | answered foundThen => exact hOther fun hIndex => kept (congrArg some hIndex)
  | broke foundThen =>
    rw [close_workers]
    exact hOther fun hIndex => kept (congrArg some hIndex)

/-- What is given up in a queue is so because nobody is left to take it. -/
theorem Run.closed_of_givenUp {workers capacity : Nat} (h : Run workers capacity past d)
    (hAt : d.At ticket (.ended none)) :
    d.isClosed = true ∨ ∃ i order, .broke i ⟨ticket, order⟩ ∈ past := by
  revert hAt
  refine h.induct (motive := fun past d => d.At ticket (.ended none) →
    d.isClosed = true ∨ ∃ i order, .broke i ⟨ticket, order⟩ ∈ past) nofun ?_
  intro past d event e run ih change hAt
  -- A ticket ends without a result by its own event only when its worker breaks off.
  by_cases hTicket : event.ticket? = some ticket
  · obtain ⟨place, hPlace⟩ := Event.exists_place hTicket
    have hNodup : e.located.Nodup := change.located_eq run.located_eq ▸ Multiset.nodup_range _
    obtain rfl := hAt.unique hNodup (change.at_self hTicket hPlace)
    cases event with
    | broke i entry =>
      cases hTicket
      exact .inr ⟨i, entry.order, List.mem_append_right _ List.mem_cons_self⟩
    | _ => cases hPlace
  · rcases change.at_other hTicket hAt with hBefore | ⟨-, hClosed, -⟩
    · rcases ih hBefore with hClosed | ⟨i, order, hBroke⟩
      · exact .inl (change.isClosed hClosed)
      · exact .inr ⟨i, order, List.mem_append_left _ hBroke⟩
    · exact .inl hClosed

theorem Run.broke_of_broken {workers capacity : Nat} (h : Run workers capacity past d)
    (hBroken : .broken ∈ d.workers) : ∃ i entry, .broke i entry ∈ past := by
  revert hBroken
  refine h.induct (motive := fun past d => .broken ∈ d.workers →
    ∃ i entry, .broke i entry ∈ past) ?_ ?_
  · intro hBroken
    cases List.eq_of_mem_replicate hBroken
  · intro past d event e run ih change hBroken
    have hKept (hMem : .broken ∈ d.workers) : ∃ i entry, .broke i entry ∈ past ++ [event] := by
      obtain ⟨i, entry, hBroke⟩ := ih hMem
      exact ⟨i, entry, List.mem_append_left _ hBroke⟩
    have hSet {i : Nat} {worker : Worker} (hMem : .broken ∈ d.workers.set i worker)
        (hWorker : .broken ≠ worker) : .broken ∈ d.workers :=
      (List.mem_or_eq_of_mem_set hMem).resolve_right hWorker
    cases change with
    | @accepted order priority =>
      rw [withQueue_workers] at hBroken
      exact hKept hBroken
    | signalled => exact hKept hBroken
    | looked | answered => exact hKept (hSet hBroken (by simp))
    | took =>
      rw [withWorker, withQueue_workers] at hBroken
      exact hKept (hSet hBroken (by simp))
    | stopped =>
      rw [close_workers] at hBroken
      exact hKept (hSet hBroken (by simp))
    | @broke i entry => exact ⟨i, entry, List.mem_append_right _ List.mem_cons_self⟩

end

end Enrollment.Dispatch
