import Enrollment.Proofs.Issuing.JobErrors
import Enrollment.Proofs.Workforce.History

/-! # Conservation of jobs

An accepted order is in one place until it is answered, and its answer is what the tracker returned
for it. `Linked` joins the calls of the tracker with the workers that made them; the rest is read
off the histories of the two parts.
-/

namespace Enrollment.Workforce

section

variable {polling : Polling} {workers capacity : Nat} {past : List Event} {w v : Workforce}
  {event : Event}

/-- What joins the dispatch and the tracker. -/
structure Linked (polling : Polling) (past : List Event) (w : Workforce) : Prop where
  calling : ∀ i call, w.calls.get? i = some call → ∃ entry,
    w.dispatch.workers[i]? = some (.busy entry) ∧ .called i entry call ∈ past
  worked : ∀ call f result, .worked call f (some result) ∈ flights past →
    ∃ key, .called call key ∈ flights past ∧ IsResult polling key result
  answered : ∀ i entry result, .dispatch (.answered i entry result) ∈ past →
    ∃ call, .called i entry call ∈ past ∧ w.tracker.phase? call = some (.returned result)

namespace Linked

theorem calling_step (h : Linked polling past w) (change : Change polling w event v) (j call : Nat)
    (hCall : v.calls.get? j = some call) : ∃ entry,
      v.dispatch.workers[j]? = some (.busy entry) ∧ .called j entry call ∈ past ++ [event] := by
  have hOld (hCall : w.calls.get? j = some call)
      (hKept : ∀ entry, w.dispatch.workers[j]? = some (.busy entry) →
        v.dispatch.workers[j]? = some (.busy entry)) : ∃ entry,
      v.dispatch.workers[j]? = some (.busy entry) ∧ .called j entry call ∈ past ++ [event] := by
    obtain ⟨entry, found, hCalled⟩ := h.calling j call hCall
    exact ⟨entry, hKept entry found, List.mem_append_left _ hCalled⟩
  cases change with
  | dispatched change kept =>
    exact hOld hCall fun entry found => change.busy_kept found (by rw [kept]; exact nofun)
  | @called i entry found free =>
    by_cases hIndex : j = i
    · subst hIndex
      obtain rfl := Option.some.inj ((Keyed.get?_put_self _ _ _).symm.trans hCall)
      exact ⟨entry, found, List.mem_append_right _ List.mem_cons_self⟩
    · exact hOld ((Keyed.get?_put_of_ne _ _ hIndex).symm.trans hCall) fun _ => id
  | tracked => exact hOld hCall fun _ => id
  | @answered i entry _ result d change calling returned =>
    by_cases hIndex : j = i
    · subst hIndex
      cases (Keyed.get?_erase_self _ _).symm.trans hCall
    · refine hOld ((Keyed.get?_erase_of_ne _ hIndex).symm.trans hCall) fun entry found => ?_
      exact change.busy_kept found fun hFrees => hIndex (Option.some.inj hFrees).symm

theorem worked_step (h : Linked polling past w)
    (tracker : SingleFlight.Run (flights past) w.tracker) (change : Change polling w event v)
    (call f : Nat) (result : JobEnd)
    (hWorked : .worked call f (some result) ∈ flights (past ++ [event])) :
    ∃ key, .called call key ∈ flights (past ++ [event]) ∧ IsResult polling key result := by
  rw [flights_concat, List.mem_append] at hWorked
  rcases hWorked with hWorked | hWorked
  · obtain ⟨key, hCalled, hResult⟩ := h.worked call f result hWorked
    exact ⟨key, mem_flights_concat hCalled, hResult⟩
  · cases change with
    | tracked change sound =>
      obtain rfl := List.mem_singleton.mp hWorked
      obtain ⟨c, found, hResult⟩ := sound
      have hCalled := (tracker.told.story call c found).called_mem
      exact ⟨c.key, mem_flights_concat (List.mem_filter.mp hCalled).1, hResult⟩
    | dispatched | answered => cases hWorked
    | called => cases List.mem_singleton.mp hWorked

theorem answered_step (h : Linked polling past w) (change : Change polling w event v) (i : Nat)
    (entry : Dispatch.Entry) (result : JobEnd)
    (hAnswered : .dispatch (.answered i entry result) ∈ past ++ [event]) :
    ∃ call, .called i entry call ∈ past ++ [event] ∧
      v.tracker.phase? call = some (.returned result) := by
  have hTracker {call : Nat} (hPhase : w.tracker.phase? call = some (.returned result)) :
      v.tracker.phase? call = some (.returned result) := by
    cases change with
    | dispatched | answered => exact hPhase
    | @called i entry =>
      exact (SingleFlight.Change.called entry.order).phase?_of_returned hPhase
    | tracked change => exact change.phase?_of_returned hPhase
  rcases List.mem_append.mp hAnswered with hAnswered | hAnswered
  · obtain ⟨call, hCalled, hPhase⟩ := h.answered i entry result hAnswered
    exact ⟨call, List.mem_append_left _ hCalled, hTracker hPhase⟩
  · cases change with
    | dispatched change kept =>
      obtain rfl := Event.dispatch.inj (List.mem_singleton.mp hAnswered)
      cases kept
    | called | tracked => cases List.mem_singleton.mp hAnswered
    | @answered _ _ call _ _ change calling returned =>
      cases List.mem_singleton.mp hAnswered
      obtain ⟨other, found, hCalled⟩ := h.calling i call calling
      cases change with
      | answered foundThen =>
        cases Option.some.inj (found.symm.trans foundThen)
        exact ⟨call, List.mem_append_left _ hCalled, returned⟩

theorem step (h : Linked polling past w) (tracker : SingleFlight.Run (flights past) w.tracker)
    (change : Change polling w event v) : Linked polling (past ++ [event]) v where
  calling := h.calling_step change
  worked := h.worked_step tracker change
  answered := h.answered_step change

end Linked

theorem Run.linked (h : Run polling workers capacity past w) : Linked polling past w := by
  refine h.induct (motive := fun past w => Linked polling past w) ⟨?_, ?_, ?_⟩
    fun _ _ _ _ run ih change => ih.step run.parts.2 change
  · intro i call hCall
    exact absurd hCall (by rw [Workforce.new, Keyed.get?_empty]; exact nofun)
  · intro call f result hWorked
    exact absurd hWorked List.not_mem_nil
  · intro i entry result hAnswered
    exact absurd hAnswered List.not_mem_nil

theorem Run.isResult (h : Run polling workers capacity past w) {i call : Nat}
    {entry : Dispatch.Entry} {result : JobEnd} (hCalled : .called i entry call ∈ past)
    (hPhase : w.tracker.phase? call = some (.returned result)) :
    IsResult polling entry.order result := by
  have tracker := h.parts.2
  obtain ⟨c, found, phase⟩ := Option.map_eq_some_iff.mp hPhase
  -- The work may have been that of another call; it was called for the same key.
  obtain ⟨j, f, hStarted, hWorked⟩ := tracker.worked_of_returned found phase
  obtain ⟨key, hKey, hResult⟩ := h.linked.worked j f result hWorked
  obtain ⟨d, -, foundOwner, hOwner, -⟩ := tracker.orderly.course_of_started hStarted
  rw [tracker.key_eq found (called_mem_flights hCalled), ← hOwner, ← tracker.key_eq foundOwner hKey]
  exact hResult

theorem Run.not_broke (h : Run polling workers capacity past w) (i : Nat)
    (entry : Dispatch.Entry) : .dispatch (.broke i entry) ∉ past := by
  refine h.induct (motive := fun past _ => .dispatch (.broke i entry) ∉ past)
    List.not_mem_nil ?_
  intro past w event v run ih change hMem
  rcases List.mem_append.mp hMem with hMem | hMem
  · exact ih hMem
  · cases change with
    | dispatched change kept =>
      obtain rfl := Event.dispatch.inj (List.mem_singleton.mp hMem)
      cases kept
    | called | tracked | answered => cases List.mem_singleton.mp hMem

/-- What is discarded is so because every worker has stopped. -/
theorem Run.stopped_of_discarded (h : Run polling workers capacity past w) {ticket : Nat}
    (hAt : w.dispatch.At ticket (.ended none)) :
    ∀ worker ∈ w.dispatch.workers, worker = .stopped := by
  have dispatch := h.parts.1
  rcases dispatch.closed_of_givenUp hAt with hClosed | ⟨i, order, hBroke⟩
  · intro worker hMem
    have hGone := List.all_eq_true.mp hClosed worker hMem
    cases worker with
    | stopped => rfl
    | broken =>
      obtain ⟨i, entry, hBroke⟩ := dispatch.broke_of_broken hMem
      exact absurd (mem_dispatches.mp hBroke) (h.not_broke i entry)
    | idle | looking | busy => cases hGone
  · exact absurd (mem_dispatches.mp hBroke) (h.not_broke i _)

/-! ### What a worker can do next -/

/-- A worker whose call has returned answers with what it has, whatever that is, and is idle. -/
theorem exists_answer {i : Nat} {entry : Dispatch.Entry} {result : JobEnd}
    (found : w.dispatch.workers[i]? = some (.busy entry))
    (returned : w.phase? i = some (.returned result)) :
    ∃ v, w.event? (.answer i) = some (.dispatch (.answered i entry result)) ∧
      w.move? (.answer i) = some v ∧
      v.dispatch = { w.dispatch.withWorker i .idle with
        ended := w.dispatch.ended.put entry.ticket (some result) } ∧
      v.calls = w.calls.erase i := by
  simp only [event?, move?, returned, dispatchEvent?, dispatched, withoutCall, Dispatch.event?,
    Dispatch.move?, Dispatch.step?, found, Option.map_some]
  exact ⟨_, trivial, rfl, rfl, rfl⟩

theorem exists_call {i : Nat} {entry : Dispatch.Entry}
    (found : w.dispatch.workers[i]? = some (.busy entry)) (free : w.calls.get? i = none) :
    ∃ v, w.event? (.call i) = some (.called i entry w.tracker.callers.length) ∧
      w.move? (.call i) = some v := by
  simp only [event?, move?, found, free]
  exact ⟨_, trivial, rfl⟩

/-- An idle worker takes what is first in line and calls the tracker for it. -/
theorem exists_take {i : Nat} {entry : Dispatch.Entry} {priority : Priority}
    (idle : w.dispatch.workers[i]? = some .idle) (free : w.calls.get? i = none)
    (alone : .looking ∉ w.dispatch.workers) (going : w.dispatch.shutdown = false)
    (first : w.dispatch.next? = some (entry, priority)) :
    ∃ call v, w.play? [.look i, .take i, .call i] = some ([.dispatch (.looked i),
      .dispatch (.took i entry priority), .called i entry call], v) := by
  let looking : Workforce := { w with dispatch := w.dispatch.withWorker i .looking }
  have hLook : w.event? (.look i) = some (.dispatch (.looked i)) ∧
      w.move? (.look i) = some looking := by
    simp only [event?, move?, dispatchEvent?, dispatched, Dispatch.event?, Dispatch.move?,
      Dispatch.step?, idle, List.contains_iff_mem, if_neg alone, Option.map_some]
    exact ⟨trivial, rfl⟩
  have hFound : looking.dispatch.workers[i]? = some .looking :=
    List.getElem?_set_self (List.getElem?_eq_some_iff.mp idle).1
  obtain ⟨d, hEvent, hMove, hBusy⟩ := Dispatch.exists_take hFound going first
  let taken : Workforce := { w with dispatch := d }
  have hTake : looking.event? (.take i) = some (.dispatch (.took i entry priority)) ∧
      looking.move? (.take i) = some taken := by
    simp only [event?, move?, dispatchEvent?, dispatched, hEvent, hMove, Option.map_some]
    exact ⟨trivial, rfl⟩
  obtain ⟨v, hCall⟩ := exists_call (w := taken) hBusy free
  have hStay : v.play? [] = some ([], v) := rfl
  exact ⟨_, v, play?_cons hLook.1 hLook.2 (play?_cons hTake.1 hTake.2
    (play?_cons hCall.1 hCall.2 hStay))⟩

theorem Run.accepted (h : Run polling workers capacity past w) {ticket : Nat} {order : Int}
    {priority : Priority} {place : Dispatch.Place JobEnd}
    (hAccepted : .dispatch (.accepted ticket order priority) ∈ past)
    (hAt : w.dispatch.At ticket place) :
    Dispatch.Story ticket place ((dispatches past).filter (Dispatch.Event.isOf ticket)) ∧
      ((dispatches past).filter (Dispatch.Event.isOf ticket)).head? =
        some (.accepted ticket order priority) := by
  have dispatch := h.parts.1
  have hStory := dispatch.told.story ticket place hAt
  obtain ⟨hOwn, -⟩ := dispatch.story_of_mem (mem_dispatches.mpr hAccepted) rfl
  exact ⟨hStory, hStory.eq_of_accepted hOwn⟩

/-- What a ticket is answered with is what the tracker returned for its own order. -/
theorem Run.result_of_answered (h : Run polling workers capacity past w) {i : Nat}
    {entry : Dispatch.Entry} {result : JobEnd}
    (hAnswered : .dispatch (.answered i entry result) ∈ past) :
    ∃ priority call, .dispatch (.accepted entry.ticket entry.order priority) ∈ past ∧
      .called i entry call ∈ past ∧ w.tracker.phase? call = some (.returned result) ∧
      w.dispatch.At entry.ticket (.ended (some result)) ∧ IsResult polling entry.order result := by
  have dispatch := h.parts.1
  obtain ⟨hOwn, place, hAt, hStory⟩ := dispatch.story_of_mem (mem_dispatches.mpr hAnswered) rfl
  obtain ⟨rfl, priority, hEvents⟩ := hStory.place_of_answer hOwn
  obtain ⟨call, hCalled, hPhase⟩ := h.linked.answered i entry result hAnswered
  have hAccepted : .dispatch (.accepted entry.ticket entry.order priority) ∈ past :=
    mem_of_filter_eq hEvents List.mem_cons_self
  exact ⟨priority, call, hAccepted, hCalled, hPhase, hAt, h.isResult hCalled hPhase⟩

/-- A ticket that ends as if it was cancelled was never taken. -/
theorem Run.not_taken_of_cancelled (h : Run polling workers capacity past w) {ticket : Nat}
    {ending : Option JobEnd} (hAt : w.dispatch.At ticket (.ended ending))
    (hCancelled : Job.resultOf ending = .error .cancelled) :
    (dispatches past).countP (Dispatch.Event.isTakeOf ticket) = 0 := by
  have hStory := h.parts.1.told.story ticket _ hAt
  rw [← Dispatch.countP_filter_isOf fun _ => Dispatch.Event.isOf_of_isTakeOf]
  cases ending with
  | some result =>
    -- A job has errors of its own only, so a result that it has is not this one.
    obtain ⟨order, priority, i, hEvents⟩ := hStory.of_answered
    have hAnswered : .dispatch (.answered i ⟨ticket, order⟩ result) ∈ past :=
      mem_of_filter_eq hEvents (by simp)
    obtain ⟨-, -, -, -, -, -, trace, run⟩ := h.result_of_answered hAnswered
    obtain rfl : result = .error .cancelled := hCancelled
    cases Job.isOfJob_of_process run
  | none =>
    rcases hStory.of_ended with ⟨order, priority, hEvents⟩ | ⟨order, priority, i, hEvents⟩
    · rw [hEvents]
      rfl
    · exact absurd (mem_of_filter_eq hEvents (by simp)) (h.not_broke i ⟨ticket, order⟩)

end

/-- Every order that was accepted is accounted for. -/
structure Conserved (polling : Polling) (past : List Event) (w : Workforce) : Prop where
  placed : ∀ ticket order priority, .dispatch (.accepted ticket order priority) ∈ past →
    ∃! place, w.dispatch.At ticket place
  queued : ∀ ticket order priority order' priority',
    .dispatch (.accepted ticket order priority) ∈ past →
    w.dispatch.At ticket (.queued order' priority') → order' = order ∧ priority' = priority
  queued_once : ∀ priority, (w.dispatch.queued priority).Nodup
  held : ∀ ticket order priority order' i, .dispatch (.accepted ticket order priority) ∈ past →
    w.dispatch.At ticket (.held order' i) →
    order' = order ∧ .dispatch (.took i ⟨ticket, order⟩ priority) ∈ past
  answered : ∀ ticket order priority result,
    .dispatch (.accepted ticket order priority) ∈ past →
    w.dispatch.At ticket (.ended (some result)) →
    ∃ i, .dispatch (.answered i ⟨ticket, order⟩ result) ∈ past
  discarded : ∀ ticket, w.dispatch.At ticket (.ended none) →
    ∀ worker ∈ w.dispatch.workers, worker = .stopped
  taken_once : ∀ ticket, (dispatches past).countP (Dispatch.Event.isTakeOf ticket) ≤ 1
  answered_once : ∀ ticket, (dispatches past).countP (Dispatch.Event.isAnswerTo ticket) ≤ 1
  /-- An answer is what the tracker returned to the call that the worker made for its order, and
  that is what processing the order came to. -/
  result : ∀ i entry result, .dispatch (.answered i entry result) ∈ past →
    ∃ priority call, .dispatch (.accepted entry.ticket entry.order priority) ∈ past ∧
      .called i entry call ∈ past ∧ w.tracker.phase? call = some (.returned result) ∧
      w.dispatch.At entry.ticket (.ended (some result)) ∧ IsResult polling entry.order result
  cancelled : ∀ ticket ending, w.dispatch.At ticket (.ended ending) →
    Job.resultOf ending = .error .cancelled →
    (dispatches past).countP (Dispatch.Event.isTakeOf ticket) = 0
  freed : ∀ i result, w.phase? i = some (.returned result) →
    ∃ entry v, w.dispatch.workers[i]? = some (.busy entry) ∧ w.move? (.answer i) = some v ∧
      v.dispatch.At entry.ticket (.ended (some result)) ∧ v.dispatch.workers[i]? = some .idle
  /-- Whatever its last job came to, an idle worker can take the next one. -/
  able : ∀ i entry priority, w.dispatch.workers[i]? = some .idle →
    .looking ∉ w.dispatch.workers → w.dispatch.shutdown = false →
    w.dispatch.next? = some (entry, priority) →
    ∃ call v, w.play? [.look i, .take i, .call i] = some ([.dispatch (.looked i),
      .dispatch (.took i entry priority), .called i entry call], v)
  /-- Whatever move can be made leaves an event, so that runs go on with all of them. -/
  told : ∀ m v, w.move? m = some v → ∃ event, w.event? m = some event

theorem Run.jobs_conserved {polling : Polling} {workers capacity : Nat} {past : List Event}
    {w : Workforce} (h : Run polling workers capacity past w) : Conserved polling past w where
  placed ticket order priority hAccepted := by
    have dispatch := h.parts.1
    obtain ⟨-, place, hAt, -⟩ := dispatch.story_of_mem (mem_dispatches.mpr hAccepted) rfl
    exact ⟨place, hAt, fun _ hOther => dispatch.at_unique hOther hAt⟩
  queued ticket order priority order' priority' hAccepted hAt := by
    obtain ⟨hStory, hHead⟩ := h.accepted hAccepted hAt
    rw [hStory.of_queued] at hHead
    cases hHead
    exact ⟨rfl, rfl⟩
  queued_once priority := h.parts.1.nodup_queued priority
  held ticket order priority order' i hAccepted hAt := by
    obtain ⟨hStory, hHead⟩ := h.accepted hAccepted hAt
    obtain ⟨priority', hEvents⟩ := hStory.of_held
    rw [hEvents] at hHead
    cases hHead
    exact ⟨rfl, mem_of_filter_eq hEvents (by simp)⟩
  answered ticket order priority result hAccepted hAt := by
    obtain ⟨hStory, hHead⟩ := h.accepted hAccepted hAt
    obtain ⟨order', priority', i, hEvents⟩ := hStory.of_answered
    rw [hEvents] at hHead
    cases hHead
    exact ⟨i, mem_of_filter_eq hEvents (by simp)⟩
  discarded ticket hAt := h.stopped_of_discarded hAt
  taken_once ticket := (h.parts.1.countP_le_one ticket).1
  answered_once ticket := (h.parts.1.countP_le_one ticket).2
  result i entry result hAnswered := h.result_of_answered hAnswered
  cancelled ticket ending hAt hCancelled := h.not_taken_of_cancelled hAt hCancelled
  freed i result returned := by
    obtain ⟨call, calling, -⟩ := Option.bind_eq_some_iff.mp returned
    obtain ⟨entry, found, -⟩ := h.linked.calling i call calling
    obtain ⟨v, -, moves, hDispatch, -⟩ := exists_answer found returned
    refine ⟨entry, v, found, moves, ?_, ?_⟩
    · rw [hDispatch]
      exact Keyed.get?_put_self _ _ _
    · rw [hDispatch]
      exact List.getElem?_set_self (List.getElem?_eq_some_iff.mp found).1
  able i entry priority idle alone going first := by
    have free : w.calls.get? i = none := by
      refine Option.eq_none_iff_forall_ne_some.mpr fun call calling => ?_
      obtain ⟨busy, found, -⟩ := h.linked.calling i call calling
      cases idle.symm.trans found
    exact exists_take idle free alone going first
  told m v moves := by
    have hEvent : (w.event? m).isSome = true := by rw [isSome_event?, moves]; rfl
    exact Option.isSome_iff_exists.mp hEvent

/-- One worker fails an order that is not in the store, answers its ticket, and is about to take the
next one when shutdown comes; that one is discarded with the worker. -/
theorem jobs_conserved_of_failure :
    ∃ past w, Run .default 1 1 past w ∧
      w.dispatch.At 0 (.ended (some (.error (.store (.notFound .order 5))))) ∧
      w.dispatch.At 1 (.ended none) ∧ w.dispatch.workers = [.stopped] ∧
      Conserved .default past w := by
  let failure : JobEnd := .error (.store (.notFound .order 5))
  have job : IsResult .default 5 failure :=
    ⟨[⟨.store (.order 5), .error (.notFound .order 5)⟩], .turn _ (.here _)⟩
  obtain ⟨before, v, event, u, after, w, played, hCaller, shows, moves, playedOn, hFailed,
      hDiscarded, hStopped⟩ : ∃ before v event u after w,
      (Workforce.new 1 1).play? [.submit 5 .high, .submit 6 .low, .look 0, .take 0, .call 0,
        .track 0 .register] = some (before, v) ∧
      v.tracker.callers[0]? = some ⟨5, 1, .working 0⟩ ∧
      v.event? (.track 0 (.finish failure)) = some event ∧
      v.move? (.track 0 (.finish failure)) = some u ∧
      u.play? [.track 0 .clear, .track 0 .publish, .answer 0, .look 0, .shutdown, .take 0] =
        some (after, w) ∧
      w.dispatch.At 0 (.ended (some failure)) ∧ w.dispatch.At 1 (.ended none) ∧
      w.dispatch.workers = [.stopped] :=
    ⟨_, _, _, _, _, _, rfl, rfl, rfl, rfl, rfl, rfl, rfl, rfl⟩
  have run : Run .default 1 1 ([] ++ before) v := .append .new played rfl
  have failed := Run.move (.track 0 (.finish failure)) run ⟨_, hCaller, job⟩ shows moves
  have ended := Run.append failed playedOn rfl
  exact ⟨_, w, ended, hFailed, hDiscarded, hStopped, Run.jobs_conserved ended⟩

end Enrollment.Workforce
