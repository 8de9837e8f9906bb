import Enrollment.Proofs.Fulfilment.Attendance
import Enrollment.Proofs.Issuing.Evidence

/-! # Whose answers a status rests on

A caller that joins the work of another is given what came of that, and that rests on what the
service of the other task's environment has sent. Flights are told apart by the URLs of their tasks
alone, so that the other task may be for another environment.
-/

namespace Enrollment.Attended

open Authorizations

/-- Where the status that a caller was given comes from. -/
structure Source (s : Attended) (caller : Nat) (task : AuthorizationTask)
    (status : AuthorizationStatus) (worker : Nat) (helper : Helper) : Prop where
  found : s.helpers[worker]? = some helper
  url : helper.task.url = task.url
  derives : helper.task.Derives helper.work.past status
  keeps : ∀ c ∈ helper.work.calls, c.KeepsTo helper.task.environment helper.task.key
  /-- Who has done the work itself has its status from nobody else. -/
  own : ∀ c, s.fulfilment.fulfiller.flights.callers[caller]? = some c → c.runs ≠ 0 →
    worker = caller
  environment : (∀ other ∈ s.fulfilment.tasks, other.url = task.url →
    other.environment = task.environment) → helper.task.environment = task.environment

structure Attributed (s : Attended) : Prop where
  callers : ∀ (caller : Nat) (task : AuthorizationTask) (status : AuthorizationStatus),
    s.fulfilment.tasks[caller]? = some task →
    s.fulfilment.fulfiller.ending? caller = some (some (.ok status)) →
    ∃ worker helper, Source s caller task status worker helper
  /-- A call for several authorizations that returns a status has one for each of its tasks. -/
  calls : ∀ (i : Nat) (call : FulfillCall) (status : AuthorizationStatus),
    s.fulfilment.calls[i]? = some call → call.rest = .done (.ok status) →
    ∃ statuses : List AuthorizationStatus,
      call.callers.map (fun caller => s.fulfilment.tasks[caller]?) = call.tasks.map some ∧
      call.callers.map s.fulfilment.fulfiller.ending? =
        statuses.map (fun own => some (some (.ok own))) ∧
      (status = .valid ↔ ∀ own ∈ statuses, own = .valid) ∧
      (status = .invalid ↔ ∃ own ∈ statuses, own ≠ .valid)

variable {solver : Solver} {s : Attended}

theorem Tended.source (h : Tended solver s) {caller : Nat} {task : AuthorizationTask}
    {status : AuthorizationStatus} (hTask : s.fulfilment.tasks[caller]? = some task)
    (ended : s.fulfilment.fulfiller.ending? caller = some (some (.ok status))) :
    ∃ worker helper, Source s caller task status worker helper := by
  have sourced := h.reachable.coherent.sourced
  obtain ⟨c, found, phase⟩ := SingleFlight.found_of_ending? ended
  obtain ⟨worker, d, foundWorker, hKey, ⟨helper, foundHelper, done⟩, own⟩ :=
    h.worked.of_returned found phase
  have hWorks := h.works helper (List.mem_of_getElem? foundHelper)
  have hWorkerTask := h.exists_task foundHelper
  have hUrl : helper.task.url = task.url := by
    rw [← sourced.key_eq foundWorker hWorkerTask, hKey, sourced.key_eq found hTask]
  refine ⟨worker, helper, foundHelper, hUrl, ?_, hWorks.keepsTo, ?_, ?_⟩
  · rw [Helper.Works, done] at hWorks
    exact derives_of_runs hWorks
  · intro c' found' hRuns
    cases found.symm.trans found'
    exact own (.inl hRuns)
  · intro same
    exact same helper.task (List.mem_of_getElem? hWorkerTask) hUrl

theorem exists_statuses {ends : List TaskEnd}
    (h : ∀ e, .error e ∉ ends.map resultOf) :
    ∃ statuses : List AuthorizationStatus, ends = statuses.map fun own => some (.ok own) := by
  induction ends with
  | nil => exact ⟨[], rfl⟩
  | cons ending ends ih =>
    obtain ⟨statuses, rfl⟩ := ih fun e hMem => h e (List.mem_cons_of_mem _ hMem)
    cases ending with
    | none => exact absurd List.mem_cons_self (h .task)
    | some result =>
      cases result with
      | error e => exact absurd List.mem_cons_self (h e)
      | ok own => exact ⟨own :: statuses, rfl⟩

theorem Tended.statuses (h : Tended solver s) {i : Nat} {call : FulfillCall}
    {status : AuthorizationStatus} (found : s.fulfilment.calls[i]? = some call)
    (done : call.rest = .done (.ok status)) :
    ∃ statuses : List AuthorizationStatus,
      call.callers.map (fun caller => s.fulfilment.tasks[caller]?) = call.tasks.map some ∧
      call.callers.map s.fulfilment.fulfiller.ending? =
        statuses.map (fun own => some (some (.ok own))) ∧
      (status = .valid ↔ ∀ own ∈ statuses, own = .valid) ∧
      (status = .invalid ↔ ∃ own ∈ statuses, own ≠ .valid) := by
  obtain ⟨ends, aggregated⟩ := (h.reachable.fulfilled found).returned _ done
  have hNoError : ∀ e, .error e ∉ ends.map resultOf := by
    intro e hMem
    obtain ⟨e', hError⟩ := aggregated.combined.fails_iff.mpr ⟨e, hMem⟩
    cases hError
  obtain ⟨statuses, rfl⟩ := exists_statuses hNoError
  have hResults : (statuses.map fun own => some (.ok own)).map resultOf = statuses.map .ok := by
    rw [List.map_map]
    rfl
  have combined := aggregated.combined
  rw [hResults] at combined
  refine ⟨statuses, aggregated.tasks, ?_, ?_, ?_⟩
  · rw [aggregated.ended, List.map_map]
    rfl
  · simpa using combined.valid_iff
  · simpa using combined.invalid_iff

theorem Reachable.attributed (h : Reachable solver s) : Attributed s where
  callers _ _ _ hTask ended := h.tended.source hTask ended
  calls _ _ _ found done := h.tended.statuses found done

/-! ### One URL in two environments -/

/-- Every authorization is valid, and nothing else can be had. -/
def onlyAuthorizations : (c : IssuerCall) → c.Answer
  | .service _ (.authorization _) _ => .ok ⟨.dns "example.org", .valid, none, false, []⟩
  | .service _ _ _ => .error .directoryFetch
  | .store _ => .error (.backend "down")
  | .provision _ _ | .deprovision _ _ => .ok ()
  | .wait _ => .shutdown
  | .clock => ⟨0, 0⟩
  | .notify _ => ()
  | .start _ => 0
  | .join _ => none
  | .enqueue _ _ => none

/-- While a task for production is worked on, one for staging comes with the same URL. -/
def joiningMoves : List Move := [
  .call (.single { Fulfilment.webTask "a" with environment := .production }),
  .call (.single (Fulfilment.webTask "a")),
  .call (.step 0 .register), .call (.step 1 .register), .help 0 onlyAuthorizations]

def landingMoves : List Move := [
  .call (.step 0 .clear), .call (.step 0 .publish), .call (.step 1 .look)]

/-- Moves in which no work ends. -/
theorem Reachable.play {t : Attended} {moves : List Move} (h : Reachable solver s)
    (played : moves.foldlM (move? solver) s = some t)
    (unended : ∀ caller result, .call (.step caller (.finish result)) ∉ moves) :
    Reachable solver t := by
  refine of_foldlM h played fun s t m hMem reachable hMove => .move m reachable ?_ hMove
  cases m with
  | help => trivial
  | call m =>
    cases m with
    | step caller step =>
      intro helper _
      apply Helper.admits_of_ne_finish
      rintro result rfl
      exact unended caller result hMem
    | all | single | leave | goOn => trivial

theorem played_joining :
    ((joiningMoves.foldlM (move? ⟨[], ⟨1, 20⟩⟩) new).bind fun s =>
      (s.move? ⟨[], ⟨1, 20⟩⟩ (.call (.step 0 (.finish (.ok .valid))))).bind fun t =>
        (landingMoves.foldlM (move? ⟨[], ⟨1, 20⟩⟩) t).map fun u =>
          (s.helpers[0]?.map fun helper => helper.work.rest, u.fulfilment.tasks[1]?,
            u.fulfilment.fulfiller.ending? 1,
            u.helpers.map fun helper => (helper.task.environment, helper.work.past.length))) =
    some (some (.done (.ok .valid)), some (Fulfilment.webTask "a"), some (some (.ok .valid)),
      [(.production, 1), (.staging, 0)]) := rfl

theorem exists_joined_production : ∃ s, Reachable ⟨[], ⟨1, 20⟩⟩ s ∧
    s.fulfilment.tasks[1]? = some (Fulfilment.webTask "a") ∧
    s.fulfilment.fulfiller.ending? 1 = some (some (.ok .valid)) ∧
    s.helpers.map (fun helper => (helper.task.environment, helper.work.past.length)) =
      [(.production, 1), (.staging, 0)] := by
  obtain ⟨s, joined, hRest⟩ := Option.bind_eq_some_iff.mp played_joining
  obtain ⟨t, finishes, hRest⟩ := Option.bind_eq_some_iff.mp hRest
  obtain ⟨u, landed, hSeen⟩ := Option.map_eq_some_iff.mp hRest
  simp only [Prod.mk.injEq] at hSeen
  obtain ⟨ended, hTask, hEnding, hHelpers⟩ := hSeen
  have hSound : s.Sound (.call (.step 0 (.finish (.ok .valid)))) := by
    intro helper found
    rw [found] at ended
    exact Option.some.inj ended
  have hJoined : Reachable ⟨[], ⟨1, 20⟩⟩ s := .play .new joined (by simp [joiningMoves])
  exact ⟨u, .play (.move _ hJoined hSound finishes) landed (by simp [landingMoves]), hTask,
    hEnding, hHelpers⟩

theorem attributed_of_joined_production : ∃ s, Reachable ⟨[], ⟨1, 20⟩⟩ s ∧
    s.fulfilment.tasks[1]? = some (Fulfilment.webTask "a") ∧
    s.fulfilment.fulfiller.ending? 1 = some (some (.ok .valid)) ∧ Attributed s := by
  obtain ⟨s, reachable, hTask, hEnding, -⟩ := exists_joined_production
  exact ⟨s, reachable, hTask, hEnding, Reachable.attributed reachable⟩

/-- The task for staging has come to a status, and nobody has asked staging for anything. -/
theorem unattributed_of_joined_production : ∃ s, Reachable ⟨[], ⟨1, 20⟩⟩ s ∧
    s.fulfilment.tasks[1]? = some (Fulfilment.webTask "a") ∧
    (Fulfilment.webTask "a").environment = .staging ∧
    s.fulfilment.fulfiller.ending? 1 = some (some (.ok .valid)) ∧
    ∀ helper ∈ s.helpers, ∀ turn ∈ helper.work.past, ∀ request key,
      turn.call ≠ .service .staging request key := by
  obtain ⟨s, reachable, hTask, hEnding, hHelpers⟩ := exists_joined_production
  refine ⟨s, reachable, hTask, rfl, hEnding, ?_⟩
  intro helper hMem turn hTurn request key hCall
  have hPair : (helper.task.environment, helper.work.past.length) ∈
      [(Environment.production, 1), (.staging, 0)] := by
    rw [← hHelpers]
    exact List.mem_map_of_mem hMem
  simp only [List.mem_cons, List.not_mem_nil, or_false, Prod.mk.injEq] at hPair
  rcases hPair with ⟨hProduction, -⟩ | ⟨-, hNone⟩
  · -- What has been worked on is for production, and so is all that was asked.
    have hKeeps := (reachable.tended.works helper hMem).keepsTo turn.call
      (List.mem_append_left _ (List.mem_map_of_mem hTurn))
    rw [hCall] at hKeeps
    cases hKeeps.1.trans hProduction
  · rw [List.eq_nil_of_length_eq_zero hNone] at hTurn
    cases hTurn

end Enrollment.Attended
