import Enrollment.Proofs.Fulfilment.Joining

/-! # What calls for several authorizations return

A call that has returned has waited for all of its tasks, and its result is put together from
theirs. In which order they ended decides no more than whose error is told. A call that has not
returned can still do so, whatever the work on its tasks comes to.
-/

namespace Enrollment.Fulfilment

open Authorizations

variable {solver : Solver} {s t u : Fulfilment} {m : Move} {call : FulfillCall} {g i : Nat}
  {group : TaskGroup} {joined : List TaskEnd}

/-! ### Calls that have returned -/

/-- What the tasks of a call have ended with, in their order, and what the call has returned. -/
structure Aggregated (solver : Solver) (s : Fulfilment) (call : FulfillCall) (ends : List TaskEnd)
    (result : Result) : Prop where
  tasks : call.callers.map (fun caller => s.tasks[caller]?) = call.tasks.map some
  /-- All of them have run to their ends. -/
  ended : call.callers.map s.fulfiller.ending? = ends.map some
  /-- A task that was not broken off has the result of its own work, or of a task for the same URL
  whose work it joined. -/
  sources : ∀ task r, (task, some r) ∈ call.tasks.zip ends → ∃ other ∈ s.tasks,
    other.url = task.url ∧ IsResult solver other r ∧ ∀ e, r = .error e → other = task
  settled : ∀ ending ∈ ends, Settled (resultOf ending)
  combined : Combined (ends.map resultOf) result
  /-- Had they ended in another order, no more than the error could be another. -/
  unordered : ∀ order : List TaskEnd, order.Perm ends →
    (combine (order.map resultOf)).toOption = result.toOption
  not_pending : result ≠ .error .stillPending

theorem Joining.exists_ends (h : Joining s call g group joined) {result : Result}
    (done : call.rest = .done result) :
    ∃ ends, call.callers.map s.fulfiller.ending? = ends.map some ∧ joined.Perm ends ∧
      result = combine (joined.map resultOf) := by
  rcases h.remains.cases with ⟨hCount, hDone⟩ | ⟨_, _, _, hJoin, _⟩ | ⟨notice, hNotify⟩
  · cases done.symm.trans hDone
    have hLength := h.length_eq
    have hRunning : group.running = [] := List.eq_nil_of_length_eq_zero (by omega)
    have hEnded : group.ended = [] := List.eq_nil_of_length_eq_zero (by omega)
    obtain ⟨order, hPerm, hEnds⟩ := h.accounted
    rw [hRunning, List.nil_append] at hPerm
    rw [hEnded, List.append_nil] at hEnds
    let endOf (caller : Nat) : TaskEnd := (s.fulfiller.ending? caller).getD none
    have hJoined : order.map endOf = joined := by
      have hGet := congrArg (List.map fun ending : Option TaskEnd => ending.getD none) hEnds
      simpa only [List.map_map, Function.comp_def, Option.getD_some, List.map_id'] using hGet
    refine ⟨call.callers.map endOf, ?_, ?_, rfl⟩
    · rw [List.map_map]
      refine List.map_congr_left fun caller hMem => ?_
      obtain ⟨ending, -, hEnding⟩ := List.mem_map.mp
        (hEnds ▸ List.mem_map_of_mem (f := s.fulfiller.ending?) (hPerm.mem_iff.mpr hMem))
      simp only [Function.comp_apply, endOf, ← hEnding, Option.getD_some]
    · rw [← hJoined]
      exact hPerm.map endOf
  · cases done.symm.trans hJoin
  · cases done.symm.trans hNotify

theorem exists_caller {callers : List Nat} {tasks : List AuthorizationTask} {ends : List TaskEnd}
    {taskOf : Nat → Option AuthorizationTask} {endOf : Nat → Option TaskEnd}
    (hTasks : callers.map taskOf = tasks.map some) (hEnds : callers.map endOf = ends.map some)
    {task : AuthorizationTask} {ending : TaskEnd} (hMem : (task, ending) ∈ tasks.zip ends) :
    ∃ caller, taskOf caller = some task ∧ endOf caller = some ending := by
  obtain ⟨k, hk⟩ := List.getElem?_of_mem hMem
  obtain ⟨hTask, hEnding⟩ := List.getElem?_zip_eq_some.mp hk
  have hTaskAt := congrArg (·[k]?) hTasks
  have hEndAt := congrArg (·[k]?) hEnds
  simp only [List.getElem?_map, hTask, hEnding, Option.map_some, Option.map_eq_some_iff]
    at hTaskAt hEndAt
  obtain ⟨caller, hCaller, hTaskOf⟩ := hTaskAt
  obtain ⟨other, hOther, hEndOf⟩ := hEndAt
  obtain rfl := Option.some.inj (hCaller.symm.trans hOther)
  exact ⟨caller, hTaskOf, hEndOf⟩

theorem aggregated (coherent : Coherent solver s) (h : Joining s call g group joined)
    {result : Result} (done : call.rest = .done result) :
    ∃ ends, Aggregated solver s call ends result := by
  obtain ⟨ends, hEnded, hPerm, rfl⟩ := h.exists_ends done
  have sources : ∀ task r, (task, some r) ∈ call.tasks.zip ends → ∃ other ∈ s.tasks,
      other.url = task.url ∧ IsResult solver other r ∧ ∀ e, r = .error e → other = task := by
    intro task r hMem
    obtain ⟨caller, hTask, hEnding⟩ := exists_caller h.tasks hEnded hMem
    exact coherent.sourced.of_returned hTask hEnding
  have hLength : call.tasks.length = ends.length := by
    have hTasks := congrArg List.length h.tasks
    have hEnds := congrArg List.length hEnded
    simp only [List.length_map] at hTasks hEnds
    omega
  have settled : ∀ ending ∈ ends, Settled (resultOf ending) := by
    intro ending hMem
    cases ending with
    | none => exact nofun
    | some r =>
      rw [← List.map_snd_zip (Nat.le_of_eq hLength.symm)] at hMem
      obtain ⟨⟨task, -⟩, hZip, rfl⟩ := List.mem_map.mp hMem
      obtain ⟨other, -, -, hResult, -⟩ := sources task r hZip
      exact settled_of_isResult hResult
  have settledAll : ∀ r ∈ ends.map resultOf, Settled r := List.forall_mem_map.mpr settled
  have settledJoined : ∀ r ∈ joined.map resultOf, Settled r := fun r hMem =>
    settledAll r ((hPerm.map resultOf).mem_iff.mp hMem)
  have hCombined := (combined settledJoined).perm (hPerm.map resultOf).symm
  refine ⟨ends, h.tasks, hEnded, sources, settled, hCombined, fun order hOrder => ?_, ?_⟩
  · have settledOrder : ∀ r ∈ order.map resultOf, Settled r := fun r hMem =>
      settledAll r ((hOrder.map resultOf).mem_iff.mp hMem)
    exact ((combined settledOrder).perm (hOrder.map resultOf).symm).unique hCombined
  · intro hPending
    have hSettled := hCombined.settled settledAll
    rw [hPending] at hSettled
    exact hSettled rfl

/-! ### Calls that have not returned -/

/-- Whether a move only brings what is there forward: nobody new comes, nobody is dropped, and work
comes to what was chosen for it. -/
def Forward (choice : Nat → AuthorizationTask → Result) (tasks : List AuthorizationTask) :
    Move → Prop
  | .all _ | .single _ | .step _ .drop => False
  | .step caller (.finish result) =>
    ∀ task, tasks[caller]? = some task → result = choice caller task
  | _ => True

inductive Later (choice : Nat → AuthorizationTask → Result) : Fulfilment → Fulfilment → Prop where
  | here (s : Fulfilment) : Later choice s s
  | move {s t u : Fulfilment} (m : Move) (forward : Forward choice s.tasks m)
    (moves : s.move? m = some t) (rest : Later choice t u) : Later choice s u

section

variable {choice : Nat → AuthorizationTask → Result}

theorem Later.trans (h : Later choice s t) (hNext : Later choice t u) : Later choice s u := by
  induction h with
  | here => exact hNext
  | move m forward moves rest ih => exact .move m forward moves (ih hNext)

theorem move?_start {tasks : List AuthorizationTask} {next : Nat → Work Result}
    (found : s.calls[i]? = some call) (rest : call.rest = .call (.start tasks) next) :
    s.move? (.goOn i) = some ({ s with
      fulfiller := (s.fulfiller.start tasks).1
      tasks := s.tasks ++ tasks }.withCall i { call with
        group? := some s.fulfiller.groups.length
        callers := (s.fulfiller.start tasks).2.2
        rest := next s.fulfiller.groups.length }) := by
  simp only [move?, found, Option.bind_some, goOn?, rest]
  rfl

theorem move?_join {next : TaskEnd → Work Result} {running : List Nat} {ending : TaskEnd}
    {ended : List TaskEnd} (found : s.calls[i]? = some call)
    (rest : call.rest = .call (.join g) next)
    (hGroup : s.fulfiller.groups[g]? = some ⟨running, ending :: ended⟩) :
    s.move? (.goOn i) = some ({ s with
      fulfiller := s.fulfiller.withGroup g ⟨running, ended⟩ }.withCall i
        { call with rest := next ending }) := by
  simp only [move?, found, Option.bind_some, goOn?, rest, Fulfiller.join?, hGroup, Option.map_some]

theorem move?_notify {notice : Notice} {next : Unit → Work Result}
    (found : s.calls[i]? = some call) (rest : call.rest = .call (.notify notice) next) :
    s.move? (.goOn i) = some (s.withCall i { call with rest := next () }) := by
  simp only [move?, found, Option.bind_some, goOn?, rest]

theorem move?_leave {caller : Nat} {ending : TaskEnd}
    (found : s.fulfiller.groups[g]? = some group)
    (ended : s.fulfiller.ending? caller = some ending) (mem : caller ∈ group.running) :
    s.move? (.leave g caller) = some { s with
      fulfiller := s.fulfiller.withGroup g
        ⟨group.running.erase caller, group.ended ++ [ending]⟩ } := by
  simp only [move?, Fulfiller.leave?, found, ended, if_pos mem, Option.map_some]

/-- When all tasks of a call have ended, the end that it is to join next can be there for it. -/
theorem Joining.exists_next (choice : Nat → AuthorizationTask → Result)
    (h : Joining s call g group joined)
    (hEnded : ∀ caller ∈ call.callers, ∃ ending, s.fulfiller.ending? caller = some ending)
    (hMore : joined.length < call.tasks.length) :
    ∃ t running ending ended, Later choice s t ∧ t.calls = s.calls ∧ Kept s t ∧
      Joining t call g ⟨running, ending :: ended⟩ joined := by
  obtain ⟨running, ended⟩ := group
  cases ended with
  | cons ending ended =>
    exact ⟨s, running, ending, ended, .here s, rfl, .refl _, h⟩
  | nil =>
    have hLength := h.length_eq
    cases running with
    | nil =>
      simp only [List.length_nil] at hLength
      omega
    | cons caller running =>
      obtain ⟨order, hPerm, -⟩ := h.accounted
      have hMem : caller ∈ call.callers := hPerm.mem_iff.mp List.mem_cons_self
      obtain ⟨ending, hEnding⟩ := hEnded caller hMem
      have moves := move?_leave h.found hEnding List.mem_cons_self
      exact ⟨_, _, ending, [], .move (.leave g caller) trivial moves (.here _), rfl,
        (change_of_move? moves).kept, h.of_left hEnding List.mem_cons_self⟩

theorem getElem?_withCall (found : s.calls[i]? = some call) (other : FulfillCall) :
    (s.withCall i other).calls[i]? = some other :=
  getElem?_set_of_found found other

/-- A call of which all tasks have ended returns. The induction is on what it has yet to do. -/
theorem Joining.exists_returned_of_ended (h : Joining s call g group joined)
    (found : s.calls[i]? = some call)
    (hEnded : ∀ caller ∈ call.callers, ∃ ending, s.fulfiller.ending? caller = some ending) :
    ∃ t last result, Later choice s t ∧ t.calls[i]? = some last ∧ last.tasks = call.tasks ∧
      last.rest = .done result := by
  generalize hRest : call.rest = rest
  induction rest generalizing s call group joined with
  | done result => exact ⟨s, call, result, .here s, found, rfl, hRest⟩
  | call c next ih =>
    rcases h.remains.cases with ⟨-, hDone⟩ | ⟨left, next', hLeft, hJoin, -⟩ | ⟨notice, hNotify⟩
    · cases hRest.symm.trans hDone
    · cases hRest.symm.trans hJoin
      obtain ⟨u, running, ending, ended, hLater, hCalls, kept, hNext⟩ :=
        h.exists_next choice hEnded (by omega)
      have foundThen : u.calls[i]? = some call := hCalls ▸ found
      have moves := move?_join foundThen hRest hNext.found
      have hEndedThen : ∀ caller ∈ call.callers,
          ∃ ending, u.fulfiller.ending? caller = some ending :=
        fun caller hMem => (hEnded caller hMem).imp (kept.ending caller)
      obtain ⟨t, last, result, hRestLater, hReturned⟩ :=
        ih ending ((hNext.of_joined hRest hNext.found).withCall i _)
          (getElem?_withCall foundThen _) hEndedThen rfl
      exact ⟨t, last, result, hLater.trans (.move (.goOn i) trivial moves hRestLater), hReturned⟩
    · cases hRest.symm.trans hNotify
      obtain ⟨t, last, result, hRestLater, hReturned⟩ :=
        ih () ((h.of_notified hRest).withCall i _) (getElem?_withCall found _) hEnded rfl
      exact ⟨t, last, result, .move (.goOn i) trivial (move?_notify found hRest) hRestLater,
        hReturned⟩

/-! ### Bringing everything forward -/

theorem Later.of_goes {flights next : AuthorizationFlights} {tasks : List AuthorizationTask}
    (goes : SingleFlight.Goes (fun caller result => ∀ task, tasks[caller]? = some task →
      result = choice caller task) flights next) (groups : List TaskGroup)
    (calls : List FulfillCall) :
    Later choice ⟨⟨flights, groups⟩, tasks, calls⟩ ⟨⟨next, groups⟩, tasks, calls⟩ := by
  induction goes with
  | here => exact .here _
  | @step flights _ _ caller step kept worked moves rest ih =>
    have forward : Forward choice tasks (.step caller step) := by
      cases step with
      | finish result => exact worked result rfl
      | drop => exact absurd rfl kept
      | register | clear | publish | look => exact trivial
    refine .move (.step caller step) forward ?_ ih
    simp only [move?, Fulfiller.step?, moves, Option.map_some]

theorem sound_of_finish (h : ∀ caller result, m = .step caller (.finish result) →
    ∃ task, s.tasks[caller]? = some task ∧ IsResult solver task result) : s.Sound solver m := by
  cases m with
  | step caller step =>
    cases step with
    | finish result => exact h caller result rfl
    | register | drop | clear | publish | look => exact trivial
  | all | single | leave | goOn => exact trivial

/-- Who takes a step does so for a task. -/
theorem Coherent.exists_task (coherent : Coherent solver s) {caller : Nat}
    {step : SingleFlight.Step AuthorizationStatus FulfillError}
    (moves : s.move? (.step caller step) = some t) : ∃ task, s.tasks[caller]? = some task := by
  obtain ⟨fulfiller, hStep, -⟩ := Option.map_eq_some_iff.mp moves
  obtain ⟨flights, hMove, -⟩ := Option.map_eq_some_iff.mp hStep
  obtain ⟨c, found, -⟩ := Option.bind_eq_some_iff.mp hMove
  have hlt : caller < s.tasks.length := by
    rw [← coherent.sourced.length_eq]
    exact (List.getElem?_eq_some_iff.mp found).1
  exact ⟨_, List.getElem?_eq_getElem hlt⟩

theorem sound_of_forward (hChoice : ∀ caller task, IsResult solver task (choice caller task))
    (coherent : Coherent solver s) (forward : Forward choice s.tasks m)
    (moves : s.move? m = some t) : s.Sound solver m := by
  refine sound_of_finish fun caller result hStep => ?_
  subst hStep
  obtain ⟨task, hTask⟩ := coherent.exists_task moves
  exact ⟨task, hTask, forward task hTask ▸ hChoice caller task⟩

theorem Later.coherent (hChoice : ∀ caller task, IsResult solver task (choice caller task))
    (h : Later choice s t) (coherent : Coherent solver s) : Coherent solver t := by
  induction h with
  | here => exact coherent
  | move m forward moves rest ih =>
    exact ih (coherent.step (sound_of_forward hChoice coherent forward moves)
      (change_of_move? moves))

theorem Later.kept (h : Later choice s t) : Kept s t := by
  induction h with
  | here => exact .refl _
  | move m forward moves rest ih => exact (change_of_move? moves).kept.trans ih

/-- All tasks that have been started can come to their ends. -/
theorem exists_all_ended (hChoice : ∀ caller task, IsResult solver task (choice caller task))
    (coherent : Coherent solver s) :
    ∃ t, Later choice s t ∧ t.calls = s.calls ∧ t.fulfiller.groups = s.fulfiller.groups ∧
      ∀ (caller : Nat) (task : AuthorizationTask), t.tasks[caller]? = some task →
        ∃ ending, t.fulfiller.ending? caller = some ending := by
  obtain ⟨⟨flights, groups⟩, tasks, calls⟩ := s
  obtain ⟨past, run, -⟩ := coherent.sourced.told
  have hWorks (caller : Nat) : ∃ result, ∀ task, tasks[caller]? = some task →
      result = choice caller task := by
    cases hTask : tasks[caller]? with
    | none => exact ⟨.error .task, fun task h => absurd h.symm (Option.some_ne_none task)⟩
    | some task => exact ⟨choice caller task, fun other h => by rw [Option.some.inj h]⟩
  obtain ⟨next, goes, hEnded⟩ := run.reachable.exists_ended hWorks
  have later : Later choice ⟨⟨flights, groups⟩, tasks, calls⟩ ⟨⟨next, groups⟩, tasks, calls⟩ :=
    .of_goes goes groups calls
  refine ⟨_, later, rfl, rfl, fun caller task hTask => ?_⟩
  have hlt : caller < next.callers.length := by
    rw [(later.coherent hChoice coherent).sourced.length_eq]
    exact (List.getElem?_eq_some_iff.mp hTask).1
  have hEnding := hEnded next.callers[caller] (List.getElem_mem hlt)
  rw [← SingleFlight.ending?_of_found (List.getElem?_eq_getElem hlt)] at hEnding
  exact Option.ne_none_iff_exists'.mp hEnding

theorem Joining.exists_task (h : Joining s call g group joined) {caller : Nat}
    (hMem : caller ∈ call.callers) : ∃ task, s.tasks[caller]? = some task := by
  obtain ⟨task, -, hTask⟩ := List.mem_map.mp
    (h.tasks ▸ List.mem_map_of_mem (f := fun caller => s.tasks[caller]?) hMem)
  exact ⟨task, hTask.symm⟩

theorem Joining.exists_returned
    (hChoice : ∀ caller task, IsResult solver task (choice caller task))
    (coherent : Coherent solver s) (h : Joining s call g group joined)
    (found : s.calls[i]? = some call) :
    ∃ t last result, Later choice s t ∧ t.calls[i]? = some last ∧ last.tasks = call.tasks ∧
      last.rest = .done result := by
  obtain ⟨u, hLater, hCalls, hGroups, hEnded⟩ := exists_all_ended hChoice coherent
  have hThen : Joining u call g group joined := h.of_kept hLater.kept (by rw [hGroups])
  obtain ⟨t, last, result, hRest, hReturned⟩ := hThen.exists_returned_of_ended (hCalls ▸ found)
    fun caller hMem => (hThen.exists_task hMem).elim (hEnded caller)
  exact ⟨t, last, result, hLater.trans hRest, hReturned⟩

/-- Whatever the work on its tasks comes to, a call can return. -/
theorem exists_returned (hChoice : ∀ caller task, IsResult solver task (choice caller task))
    (coherent : Coherent solver s) (found : s.calls[i]? = some call) :
    ∃ t last result, Later choice s t ∧ t.calls[i]? = some last ∧ last.tasks = call.tasks ∧
      last.rest = .done result := by
  cases coherent.standing i call found with
  | joining h => exact h.exists_returned hChoice coherent found
  | coming tasks =>
    have moves := move?_start found (fulfill_eq tasks)
    have coherentThen := coherent.step (m := .goOn i) trivial (change_of_move? moves)
    let started : FulfillCall := ⟨tasks, some s.fulfiller.groups.length,
      (s.fulfiller.start tasks).2.2, remaining s.fulfiller.groups.length [] tasks.length⟩
    have foundThen := getElem?_withCall (s := { s with
      fulfiller := (s.fulfiller.start tasks).1, tasks := s.tasks ++ tasks }) found started
    obtain ⟨group, joined, h⟩ := (coherentThen.standing i started foundThen).exists_joining rfl
    obtain ⟨t, last, result, hRest, hReturned⟩ := h.exists_returned hChoice coherentThen foundThen
    exact ⟨t, last, result, .move (.goOn i) trivial moves hRest, hReturned⟩

end

/-! ### All that is promised of a call -/

theorem phase?_of_goOn (change : Change s (.goOn i) t) {caller : Nat}
    {phase : SingleFlight.Phase AuthorizationStatus FulfillError}
    (h : s.fulfiller.flights.phase? caller = some phase) :
    t.fulfiller.flights.phase? caller = some phase := by
  cases change with
  | joined | notified => exact h
  | @started _ _ tasks =>
    obtain ⟨c, found, hPhase⟩ := Option.map_eq_some_iff.mp h
    have foundThen := getElem?_append_of_some
      ((tasks.map AuthorizationTask.url).map fun url => ⟨url, 0, .starting⟩) found
    rw [← SingleFlight.callAll_callers] at foundThen
    exact Option.map_eq_some_iff.mpr ⟨c, foundThen, hPhase⟩

structure Fulfilled (solver : Solver) (s : Fulfilment) (i : Nat) (call : FulfillCall) : Prop where
  returned : ∀ result, call.rest = .done result → ∃ ends, Aggregated solver s call ends result
  /-- A call that goes on, failures or not, leaves all that callers are at to them. -/
  untouched : ∀ t caller phase, s.move? (.goOn i) = some t →
    s.fulfiller.flights.phase? caller = some phase →
    t.fulfiller.flights.phase? caller = some phase
  returns : ∀ choice : Nat → AuthorizationTask → Result,
    (∀ caller task, IsResult solver task (choice caller task)) →
    ∃ t last result, Later choice s t ∧ t.calls[i]? = some last ∧ last.tasks = call.tasks ∧
      last.rest = .done result

theorem Reachable.fulfilled (h : Reachable solver s) (found : s.calls[i]? = some call) :
    Fulfilled solver s i call where
  returned result done := by
    cases h.coherent.standing i call found with
    | coming => cases done
    | joining hJoining => exact aggregated h.coherent hJoining done
  untouched _ _ _ moves hPhase := phase?_of_goOn (change_of_move? moves) hPhase
  returns _ hChoice := exists_returned hChoice h.coherent found

/-! ### Moves one after another -/

def play? (s : Fulfilment) : List Move → Option Fulfilment
  | [] => some s
  | m :: moves => (s.move? m).bind fun t => t.play? moves

theorem kept_of_play? {moves : List Move} (played : s.play? moves = some t) : Kept s t := by
  induction moves generalizing s with
  | nil =>
    cases played
    exact .refl _
  | cons m moves ih =>
    obtain ⟨u, hMove, hRest⟩ := Option.bind_eq_some_iff.mp played
    exact (change_of_move? hMove).kept.trans (ih hRest)

/-- Moves in which work comes to what the work on the tasks can come to. -/
theorem Reachable.play {moves : List Move} (h : Reachable solver s)
    (played : s.play? moves = some t) (sound : ∀ caller result,
      .step caller (.finish result) ∈ moves →
        ∃ task, t.tasks[caller]? = some task ∧ IsResult solver task result) :
    Reachable solver t := by
  induction moves generalizing s with
  | nil =>
    cases played
    exact h
  | cons m moves ih =>
    have kept := kept_of_play? played
    obtain ⟨u, hMove, hRest⟩ := Option.bind_eq_some_iff.mp played
    refine ih (.move m h ?_ hMove) hRest fun caller result hMem =>
      sound caller result (List.mem_cons_of_mem m hMem)
    refine sound_of_finish fun caller result hStep => ?_
    subst hStep
    obtain ⟨task, hTask, hResult⟩ := sound caller result List.mem_cons_self
    obtain ⟨own, hOwn⟩ := h.coherent.exists_task hMove
    cases (kept.task caller own hOwn).symm.trans hTask
    exact ⟨_, hOwn, hResult⟩

def webTask (name : String) : AuthorizationTask :=
  ⟨⟨"https", none, .segments [name], none, none⟩, .webInternal,
    ⟨.curve .p256 1 (by decide), none⟩, .staging⟩

/-- A call comes with the same URL twice and another one. The work on the other fails first; the
call joins that and tells of it, and then waits for the two that share their work. -/
def sharingAndFailing : List Move := [
  .all [webTask "a", webTask "a", webTask "b"], .goOn 0,
  .step 0 .register, .step 1 .register, .step 2 .register,
  .step 2 (.finish (.error (.service .directoryFetch))), .step 2 .clear, .step 2 .publish,
  .leave 0 2, .goOn 0, .goOn 0,
  .step 0 (.finish (.ok .valid)), .step 0 .clear, .step 0 .publish, .step 1 .look,
  .leave 0 1, .leave 0 0, .goOn 0, .goOn 0]

theorem play?_sharingAndFailing :
    ((new.play? sharingAndFailing).bind fun s => s.calls[0]?.map fun call =>
      (s.tasks, call.tasks, call.callers.map s.fulfiller.ending?, call.rest)) =
    some ([webTask "a", webTask "a", webTask "b"], [webTask "a", webTask "a", webTask "b"],
      [some (some (.ok .valid)), some (some (.ok .valid)),
        some (some (.error (.service .directoryFetch)))],
      .done (.error (.service .directoryFetch))) := rfl

theorem fulfilled_of_failure :
    ∃ s call, Reachable ⟨[], ⟨1, 20⟩⟩ s ∧ s.calls[0]? = some call ∧
      call.tasks = [webTask "a", webTask "a", webTask "b"] ∧
      call.callers.map s.fulfiller.ending? = [some (some (.ok .valid)), some (some (.ok .valid)),
        some (some (.error (.service .directoryFetch)))] ∧
      call.rest = .done (.error (.service .directoryFetch)) ∧
      Fulfilled ⟨[], ⟨1, 20⟩⟩ s 0 call := by
  obtain ⟨s, played, hCall⟩ := Option.bind_eq_some_iff.mp play?_sharingAndFailing
  obtain ⟨call, found, hSeen⟩ := Option.map_eq_some_iff.mp hCall
  simp only [Prod.mk.injEq] at hSeen
  obtain ⟨hAll, hTasks, hEnds, hRest⟩ := hSeen
  have reachable : Reachable ⟨[], ⟨1, 20⟩⟩ s := by
    refine .play .new played fun caller result hMem => ?_
    have hFinish : (caller = 2 ∧ result = .error (.service .directoryFetch)) ∨
        caller = 0 ∧ result = .ok .valid := by simpa [sharingAndFailing] using hMem
    rcases hFinish with ⟨rfl, rfl⟩ | ⟨rfl, rfl⟩
    · exact ⟨webTask "b", by rw [hAll]; rfl, _, .turn (.error .directoryFetch) (.here _)⟩
    · exact ⟨webTask "a", by rw [hAll]; rfl, _,
        .turn (.ok ⟨.dns "example.org", .valid, none, false, []⟩) (.here _)⟩
  exact ⟨s, call, reachable, found, hTasks, hEnds, hRest, Reachable.fulfilled reachable found⟩

end Enrollment.Fulfilment
