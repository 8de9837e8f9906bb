import Enrollment.Proofs.Dispatch.Story

/-! # Who is next

What has been taken out of a queue is what came into it first, and what came into it later is still
there as long as somebody is left to take it. A worker selects with shutdown before it, then high
priority, then low; the selection is made at once, so that what it finds is told by the events
before it.
-/

namespace Enrollment.Dispatch

variable {ρ : Type}

def Event.enters? (priority : Priority) : Event ρ → Option Entry
  | accepted ticket order into => if into = priority then some ⟨ticket, order⟩ else none
  | signalled | looked _ | took _ _ _ | stopped _ | answered _ _ _ | broke _ _ => none

def Event.leaves? (priority : Priority) : Event ρ → Option Entry
  | took _ entry outOf => if outOf = priority then some entry else none
  | accepted _ _ _ | signalled | looked _ | stopped _ | answered _ _ _ | broke _ _ => none

/-- What was handed in with a priority, in the order in which it was. -/
def entered (past : List (Event ρ)) (priority : Priority) : List Entry :=
  past.filterMap (Event.enters? priority)

def taken (past : List (Event ρ)) (priority : Priority) : List Entry :=
  past.filterMap (Event.leaves? priority)

section

variable {d e : Dispatch ρ} {event : Event ρ} {past : List (Event ρ)} {workers capacity : Nat}
  {priority : Priority}

@[simp] theorem entered_concat : entered (past ++ [event]) priority =
    entered past priority ++ (event.enters? priority).toList := by
  simp only [entered, List.filterMap_append, List.filterMap_cons, List.filterMap_nil]
  cases event.enters? priority <;> rfl

@[simp] theorem taken_concat : taken (past ++ [event]) priority =
    taken past priority ++ (event.leaves? priority).toList := by
  simp only [taken, List.filterMap_append, List.filterMap_cons, List.filterMap_nil]
  cases event.leaves? priority <;> rfl

@[simp] theorem queue_withQueue (entries : List Entry) (into : Priority) :
    (d.withQueue entries into).queue priority =
      if into = priority then entries else d.queue priority := by
  cases into <;> cases priority <;> rfl

theorem queue_congr (high : e.high = d.high) (low : e.low = d.low) (priority : Priority) :
    e.queue priority = d.queue priority := by
  cases priority with
  | high => exact high
  | low => exact low

theorem isClosed_eq_false {i : Nat} {worker : Worker} (found : d.workers[i]? = some worker)
    (here : worker.isGone = false) : d.isClosed = false := by
  rw [isClosed, List.all_eq_false]
  exact ⟨worker, List.mem_of_getElem? found, by simp [here]⟩

theorem close_of_isClosed (h : d.close.isClosed = false) : d.close = d := by
  rw [isClosed_close] at h
  rw [close, h]
  rfl

/-! ### First in, first out -/

/-- What came in is what was taken and then what waits, unless nobody is left to take it. -/
def Lined (past : List (Event ρ)) (d : Dispatch ρ) : Prop :=
  ∀ priority, ∃ waiting, entered past priority = taken past priority ++ waiting ∧
    (d.isClosed = false → waiting = d.queue priority)

theorem Lined.keep (h : Lined past d)
    (apart : ∀ priority, event.enters? priority = none ∧ event.leaves? priority = none)
    (kept : e.isClosed = false →
      d.isClosed = false ∧ ∀ priority, e.queue priority = d.queue priority) :
    Lined (past ++ [event]) e := by
  intro priority
  obtain ⟨waiting, hEntered, hWaiting⟩ := h priority
  obtain ⟨hEnters, hLeaves⟩ := apart priority
  refine ⟨waiting, by simpa [hEnters, hLeaves] using hEntered, fun hOpen => ?_⟩
  obtain ⟨hBefore, hQueue⟩ := kept hOpen
  rw [hQueue, hWaiting hBefore]

theorem Lined.step (h : Lined past d) (change : Change d event e) : Lined (past ++ [event]) e := by
  cases change with
  | @accepted order into isOpen =>
    intro priority
    obtain ⟨waiting, hEntered, hWaiting⟩ := h priority
    obtain rfl := hWaiting isOpen
    let entries := d.queue into ++ [⟨d.tickets, order⟩]
    have hQueue := queue_congr (d := d.withQueue entries into)
      (e := { d.withQueue entries into with tickets := d.tickets + 1 }) rfl rfl priority
    by_cases hPriority : into = priority
    · subst hPriority
      refine ⟨entries, ?_, fun _ => ?_⟩
      · simp [Event.enters?, Event.leaves?, hEntered, entries]
      · simpa using hQueue.symm
    · refine ⟨d.queue priority, ?_, fun _ => ?_⟩
      · simpa [Event.enters?, Event.leaves?, hPriority] using hEntered
      · simpa [hPriority] using hQueue.symm
  | @took i entry rest outOf found _ first =>
    intro priority
    obtain ⟨waiting, hEntered, hWaiting⟩ := h priority
    obtain rfl := hWaiting (isClosed_eq_false found rfl)
    have hQueue := queue_congr (d := d.withQueue rest outOf)
      (e := (d.withQueue rest outOf).withWorker i (.busy entry)) rfl rfl priority
    by_cases hPriority : outOf = priority
    · subst hPriority
      refine ⟨rest, ?_, fun _ => ?_⟩
      · simpa [Event.enters?, Event.leaves?, first] using hEntered
      · simpa using hQueue.symm
    · refine ⟨d.queue priority, ?_, fun _ => ?_⟩
      · simpa [Event.enters?, Event.leaves?, hPriority] using hEntered
      · simpa [hPriority] using hQueue.symm
  | signalled => exact h.keep (fun _ => ⟨rfl, rfl⟩) fun hOpen => ⟨hOpen, queue_congr rfl rfl⟩
  | looked found | answered found =>
    exact h.keep (fun _ => ⟨rfl, rfl⟩) fun _ => ⟨isClosed_eq_false found rfl, queue_congr rfl rfl⟩
  | stopped found | broke found =>
    -- The queues are emptied only when the last worker goes.
    refine h.keep (fun _ => ⟨rfl, rfl⟩) fun hOpen => ⟨isClosed_eq_false found rfl, ?_⟩
    rw [close_of_isClosed hOpen]
    exact queue_congr rfl rfl

theorem Run.lined (h : Run workers capacity past d) : Lined past d := by
  apply h.induct (motive := Lined)
  · intro priority
    exact ⟨[], rfl, fun _ => by cases priority <;> rfl⟩
  · intro past d event e _ ih change
    exact ih.step change

theorem Run.taken_prefix (h : Run workers capacity past d) (priority : Priority) :
    taken past priority <+: entered past priority := by
  obtain ⟨waiting, hEntered, -⟩ := h.lined priority
  exact ⟨waiting, hEntered.symm⟩

theorem Run.entered_eq (h : Run workers capacity past d) (isOpen : d.isClosed = false)
    (priority : Priority) : entered past priority = taken past priority ++ d.queue priority := by
  obtain ⟨waiting, hEntered, hWaiting⟩ := h.lined priority
  rw [hEntered, hWaiting isOpen]

/-! ### Shutdown -/

@[simp] theorem withQueue_shutdown (entries : List Entry) (into : Priority) :
    (d.withQueue entries into).shutdown = d.shutdown := by cases into <;> rfl

@[simp] theorem close_shutdown : d.close.shutdown = d.shutdown := by
  unfold close
  split <;> rfl

theorem Change.shutdown_iff (change : Change d event e) :
    e.shutdown = true ↔ d.shutdown = true ∨ event = .signalled := by
  cases change with
  | signalled => simp
  | accepted | took | looked | answered => simp [withWorker]
  | stopped | broke => simp [withWorker, giveUp]

theorem Run.shutdown_iff (h : Run workers capacity past d) :
    d.shutdown = true ↔ .signalled ∈ past := by
  apply h.induct (motive := fun past d => d.shutdown = true ↔ .signalled ∈ past)
  · simp [Dispatch.new]
  · intro past d event e _ ih change
    rw [change.shutdown_iff, ih, List.mem_append, List.mem_singleton, eq_comm (a := event)]

theorem Run.going (h : Run workers capacity past d) (going : d.shutdown = false) :
    .signalled ∉ past := by
  intro hSignalled
  rw [h.shutdown_iff.mpr hSignalled] at going
  cases going

def Left (past : List (Event ρ)) (i : Nat) (worker : Worker) : Prop :=
  worker = .stopped ∧ .stopped i ∈ past ∨ worker = .broken ∧ ∃ entry, .broke i entry ∈ past

theorem Left.concat {i : Nat} {worker : Worker} (h : Left past i worker) :
    Left (past ++ [event]) i worker := by
  rcases h with ⟨rfl, hStopped⟩ | ⟨rfl, entry, hBroke⟩
  · exact .inl ⟨rfl, List.mem_append_left _ hStopped⟩
  · exact .inr ⟨rfl, entry, List.mem_append_left _ hBroke⟩

theorem Run.left (h : Run workers capacity past d) : ∀ i worker, d.workers[i]? = some worker →
    worker.isGone = true → Left past i worker := by
  apply h.induct (motive := fun past d => ∀ i worker, d.workers[i]? = some worker →
    worker.isGone = true → Left past i worker)
  · intro i worker found isGone
    obtain rfl := List.eq_of_mem_replicate (List.mem_of_getElem? found)
    cases isGone
  · intro past d event e _ ih change i worker found isGone
    have hKept (found : d.workers[i]? = some worker) : Left (past ++ [event]) i worker :=
      (ih i worker found isGone).concat
    cases change with
    | accepted =>
      rw [withQueue_workers] at found
      exact hKept found
    | signalled => exact hKept found
    | looked | answered =>
      rcases getElem?_withWorker_cases found with ⟨-, rfl⟩ | ⟨-, found⟩
      · cases isGone
      · exact hKept found
    | took =>
      rcases getElem?_withWorker_cases found with ⟨-, rfl⟩ | ⟨-, found⟩
      · cases isGone
      · rw [withQueue_workers] at found
        exact hKept found
    | stopped =>
      rw [close_workers] at found
      rcases getElem?_withWorker_cases found with ⟨rfl, rfl⟩ | ⟨-, found⟩
      · exact .inl ⟨rfl, List.mem_append_right _ List.mem_cons_self⟩
      · exact hKept found
    | @broke _ entry =>
      rw [close_workers] at found
      rcases getElem?_withWorker_cases found with ⟨rfl, rfl⟩ | ⟨-, found⟩
      · exact .inr ⟨rfl, entry, List.mem_append_right _ List.mem_cons_self⟩
      · exact hKept found

/-! ### What is taken when -/

theorem selected {m : Move ρ} {i : Nat} {entry : Entry}
    (shows : d.event? m = some (.took i entry priority)) :
    d.shutdown = false ∧ (d.queue priority).head? = some entry ∧
      (priority = .low → d.high = []) := by
  have hMove : (d.move? m).isSome = true := by rw [← isSome_event?, shows]; rfl
  obtain ⟨e, moves⟩ := Option.isSome_iff_exists.mp hMove
  cases change_of_move? shows moves with
  | took found going first none_above =>
    rw [first]
    exact ⟨going, rfl, none_above⟩

/-- In what order orders are taken, and for what reason workers go. -/
structure Prioritized (past : List (Event ρ)) (d : Dispatch ρ) : Prop where
  selects : ∀ m i entry priority, d.event? m = some (.took i entry priority) →
    d.shutdown = false ∧ (d.queue priority).head? = some entry ∧
      (priority = .low → d.high = [])
  /-- When an order of low priority was taken, every one of high priority had been. -/
  low : ∀ before after i entry, past = before ++ .took i entry .low :: after →
    .signalled ∉ before ∧ entered before .high = taken before .high
  in_order : ∀ priority, taken past priority <+: entered past priority
  shut : ∀ before after, past = before ++ .signalled :: after →
    ∀ i entry priority, .took i entry priority ∉ after
  /-- However full the queues are, whoever looks into them after shutdown stops. -/
  stops : .signalled ∈ past → ∀ i, d.workers[i]? = some .looking →
    d.event? (.step i .take) = some (.stopped i)
  leaves : ∀ before after i, past = before ++ .stopped i :: after → .signalled ∈ before
  /-- Who is gone without shutdown was torn down by the order in its hands. -/
  gone : ∀ i worker, d.workers[i]? = some worker → worker.isGone = true →
    worker = .stopped ∧ .stopped i ∈ past ∧ .signalled ∈ past ∨
      worker = .broken ∧ ∃ entry, .broke i entry ∈ past

theorem Run.signalled_before_stop (h : Run workers capacity past d) {before after : List (Event ρ)}
    {i : Nat} (hPast : past = before ++ .stopped i :: after) : .signalled ∈ before := by
  obtain ⟨b, c, run, change⟩ := h.change_at hPast
  cases change with
  | stopped found shut => exact run.shutdown_iff.mp shut

theorem Run.prioritized (h : Run workers capacity past d) : Prioritized past d where
  selects m i entry priority shows := selected shows
  low before after i entry hPast := by
    obtain ⟨b, c, run, change⟩ := h.change_at hPast
    cases change with
    | took found going first none_above =>
      -- Nothing of high priority waited then, so that all that had come in had been taken.
      have hEntered := run.entered_eq (isClosed_eq_false found rfl) .high
      rw [queue, none_above rfl, List.append_nil] at hEntered
      exact ⟨run.going going, hEntered⟩
  in_order := h.taken_prefix
  shut before after hPast i entry priority hTook := by
    obtain ⟨between, rest, rfl⟩ := List.append_of_mem hTook
    have hSplit : past = (before ++ .signalled :: between) ++ .took i entry priority :: rest := by
      simp [hPast]
    obtain ⟨b, c, run, change⟩ := h.change_at hSplit
    cases change with
    | took found going first none_above =>
      refine run.going going ?_
      exact List.mem_append_right _ List.mem_cons_self
  stops hSignalled i found := by
    simp only [event?, found, h.shutdown_iff.mpr hSignalled, if_true]
  leaves before after i hPast := h.signalled_before_stop hPast
  gone i worker found isGone := by
    rcases h.left i worker found isGone with ⟨rfl, hStopped⟩ | hBroken
    · obtain ⟨before, after, hPast⟩ := List.append_of_mem hStopped
      have hSignalled := h.signalled_before_stop hPast
      refine .inl ⟨rfl, hStopped, ?_⟩
      rw [hPast]
      exact List.mem_append_left _ hSignalled
    · exact .inr hBroken

end

/-- Two workers take an order of high priority and then the one of low priority that came before
it; the first of them is done and about to take the next when shutdown comes. -/
theorem prioritized_of_late_shutdown : ∃ (past : List (Event Unit)) (d : Dispatch Unit),
    Run 2 4 past d ∧ .took 1 ⟨0, 5⟩ .low ∈ past ∧ d.low = [⟨2, 7⟩] ∧
      d.workers = [.stopped, .busy ⟨0, 5⟩] ∧ Prioritized past d := by
  obtain ⟨past, d, played, hTook, hLow, hWorkers⟩ : ∃ past d,
      (Dispatch.new 2 4 : Dispatch Unit).play? [.submit 5 .low, .submit 6 .high, .step 0 .look,
        .step 0 .take, .step 1 .look, .step 1 .take, .submit 7 .low, .step 0 (.finish ()),
        .step 0 .look, .shutdown, .step 0 .take] = some (past, d) ∧
      .took 1 ⟨0, 5⟩ .low ∈ past ∧ d.low = [⟨2, 7⟩] ∧ d.workers = [.stopped, .busy ⟨0, 5⟩] :=
    ⟨_, _, rfl, List.mem_of_getElem? (i := 5) rfl, rfl, rfl⟩
  have run : Run 2 4 ([] ++ past) d := .append .new played
  exact ⟨past, d, run, hTook, hLow, hWorkers, Run.prioritized run⟩

end Enrollment.Dispatch
