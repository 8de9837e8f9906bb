import Enrollment.Issuing.Job
import Enrollment.Proofs.Procedure.Progress

/-! # Where calls are directed

The work on a task asks the service of the task's environment only, and with the task's key. So does
a job with the environment and the key of its certificate, and it starts no other tasks.
-/

namespace Enrollment

open Procedure

/-- A call has to do with no other environment and no other key than these. -/
def IssuerCall.KeepsTo (environment : Environment) (key : AccountKey) : IssuerCall → Prop
  | service environment' _ key' => environment' = environment ∧ key' = key
  | provision _ proof | deprovision _ proof => proof.key = key
  | start tasks => ∀ task ∈ tasks, task.environment = environment ∧ task.key = key
  | store _ | wait _ | clock | notify _ | join _ | enqueue _ _ => True

namespace Attempt

variable {α δ ε : Type} {allowed : IssuerCall → Prop}

theorem makes_ofWork {work : Work (Except δ α)} (h : work.Makes allowed) (wrap : δ → ε) :
    (ofWork work wrap).run.Makes allowed :=
  h.bind fun _ => trivial

theorem makes_ofExcept (result : Except δ α) (wrap : δ → ε) :
    (ofExcept result wrap).run.Makes allowed :=
  trivial

theorem makes_lift {work : Work α} (h : work.Makes allowed) :
    (ExceptT.lift work : Attempt ε α).run.Makes allowed :=
  h.bind fun _ => trivial

end Attempt

abbrev Keeping (environment : Environment) (key : AccountKey) {α : Type} (work : Work α) : Prop :=
  work.Makes (IssuerCall.KeepsTo environment key)

namespace Solver

variable {solver : Solver} {task : SolverTask}

theorem keeping_askService (request : ServiceRequest) :
    Keeping task.environment task.proof.key (askService task request).run :=
  Attempt.makes_ofWork (makes_ask ⟨rfl, rfl⟩) _

theorem keeping_poll (attempts : Nat) :
    Keeping task.environment task.proof.key (solver.poll task attempts).run := by
  induction attempts with
  | zero => trivial
  | succ attempts ih =>
    refine Makes.attempt (Attempt.makes_lift (makes_ask trivial)) fun waited => ?_
    cases waited with
    | shutdown => trivial
    | elapsed =>
      refine Makes.attempt (keeping_askService (.challenge task.challenge.url)) fun current => ?_
      split
      · trivial
      · exact ih

theorem keeping_provisionAndPoll :
    Keeping task.environment task.proof.key (solver.provisionAndPoll task).run := by
  have hShown : (IssuerCall.provision task.method task.proof).KeepsTo task.environment
      task.proof.key := rfl
  refine Makes.attempt (Attempt.makes_ofWork (makes_ask hShown) _) fun _ => ?_
  exact Makes.attempt (keeping_askService (.validation task.challenge.url)) fun _ => keeping_poll _

theorem keeping_takeAway : Keeping task.environment task.proof.key (takeAway task) := by
  refine ⟨rfl, fun answer => ?_⟩
  cases answer with
  | ok u => trivial
  | error e => exact ⟨trivial, fun _ => trivial⟩

theorem keeping_solveTask : Keeping task.environment task.proof.key (solver.solveTask task) := by
  refine Makes.bind keeping_provisionAndPoll fun outcome => ?_
  refine Makes.bind keeping_takeAway fun _ => ?_
  cases outcome with
  | ok status => trivial
  | error e => exact ⟨trivial, fun _ => trivial⟩

/-- The challenge that is selected is one of those offered, and is solved in the environment and with
the key it is selected for. -/
theorem select_eq_ok {identifier : Identifier} {challenges : List Challenge}
    {method : ChallengeMethod} {key : AccountKey} {environment : Environment}
    (h : solver.select identifier challenges method key environment = .ok task) :
    task.challenge ∈ challenges ∧ task.environment = environment ∧ task.proof.key = key := by
  unfold select at h
  split at h
  · cases h
  · next challenge hLast =>
    split at h
    · cases h
    · split at h
      · cases h
        exact ⟨List.mem_reverse.mp (List.mem_of_find?_eq_some hLast), rfl, rfl⟩
      · cases h

theorem keeping_solve (identifier : Identifier) (challenges : List Challenge)
    (method : ChallengeMethod) (key : AccountKey) (environment : Environment) :
    Keeping environment key (solver.solve identifier challenges method key environment) := by
  unfold solve
  split
  · trivial
  · next task hSelect =>
    obtain ⟨-, rfl, rfl⟩ := select_eq_ok hSelect
    exact keeping_solveTask

end Solver

namespace Authorizations

theorem keeping_fulfillOne (solver : Solver) (task : AuthorizationTask) :
    Keeping task.environment task.key (fulfillOne solver task) := by
  refine Makes.attempt (Attempt.makes_ofWork (makes_ask ⟨rfl, rfl⟩) _) ?_
  intro authorization
  cases hStatus : authorization.status with
  | pending =>
    refine Makes.attempt (Attempt.makes_ofWork (Solver.keeping_solve _ _ _ _ _) _) fun solved => ?_
    split <;> trivial
  | unknown | valid | invalid | deactivated | expired | revoked =>
    trivial

variable {environment : Environment} {key : AccountKey}

theorem keeping_joinAll (group count : Nat) : Keeping environment key (joinAll group count) := by
  induction count with
  | zero => trivial
  | succ count ih =>
    refine ⟨trivial, fun ending => ?_⟩
    have hRest : Keeping environment key (do
        return resultOf ending :: (← joinAll group count)) :=
      ih.bind fun _ => trivial
    dsimp only [Procedure.done_bind]
    split
    · exact ⟨trivial, fun _ => hRest⟩
    · exact hRest

theorem keeping_fulfill {tasks : List AuthorizationTask}
    (h : ∀ task ∈ tasks, task.environment = environment ∧ task.key = key) :
    Keeping environment key (fulfill tasks) :=
  ⟨h, fun _ => (keeping_joinAll _ _).bind fun _ => trivial⟩

end Authorizations

namespace Job

abbrev Routes (job : Job) {α : Type} (work : Attempt JobError α) : Prop :=
  Keeping job.certificate.environment job.certificate.key work.run

variable {job : Job}

theorem routes_askStore (request : StoreRequest) : job.Routes (askStore request) :=
  Attempt.makes_ofWork (makes_ask trivial) _

theorem routes_askService (request : ServiceRequest) : job.Routes (job.askService request) :=
  Attempt.makes_ofWork (makes_ask ⟨rfl, rfl⟩) _

theorem routes_receive {request : Attempt JobError Order} (h : job.Routes request) :
    job.Routes (job.receive request) :=
  Makes.attempt h fun _ => Makes.attempt (routes_askStore _) fun _ => trivial

theorem routes_fetch : job.Routes job.fetch :=
  routes_receive (routes_askService (.order job.location))

theorem routes_finalize (order : Order) : job.Routes (job.finalize order) :=
  Makes.attempt (Attempt.makes_ofExcept _ _) fun _ => routes_receive (routes_askService _)

theorem routes_save (order : Order) : job.Routes (job.save order) := by
  unfold save
  cases order.certificate with
  | none => trivial
  | some url =>
    refine Makes.attempt (routes_askService (.certificate url)) fun chain => ?_
    exact Makes.attempt (routes_askStore (.saveCertificate job.id chain)) fun _ => trivial

theorem routes_giveUp (notice : Notice) : job.Routes (job.giveUp notice) := by
  refine Makes.attempt (Attempt.makes_lift (makes_ask trivial)) fun _ => ?_
  exact Makes.attempt (routes_askStore _) fun _ => trivial

theorem routes_fulfill {next : Attempt JobError Outcome} (h : job.Routes next) (order : Order) :
    job.Routes (job.fulfill next order) := by
  have hTasks : ∀ task ∈ order.authorizations.map job.taskFor,
      task.environment = job.certificate.environment ∧ task.key = job.certificate.key :=
    List.forall_mem_map.mpr fun _ _ => ⟨rfl, rfl⟩
  refine Makes.attempt (Attempt.makes_ofWork (Authorizations.keeping_fulfill hTasks) _) ?_
  intro status
  split
  · exact h
  · exact routes_giveUp _

theorem routes_advance {onPending : Order → Attempt JobError Outcome}
    {wait : Attempt JobError Outcome} (hPending : ∀ order, job.Routes (onPending order))
    (hWait : job.Routes wait) (order : Order) :
    job.Routes (job.advance onPending wait order) := by
  unfold advance
  cases order.status with
  | pending => exact hPending order
  | processing => exact hWait
  | valid => exact routes_save order
  | invalid => exact routes_giveUp _
  | ready =>
    refine Makes.attempt (routes_finalize order) fun finalized => ?_
    cases finalized.status with
    | pending => exact hPending finalized
    | processing | ready => exact hWait
    | valid => exact routes_save finalized
    | invalid => exact routes_giveUp _

theorem routes_settle {wait : Bool → Attempt JobError Outcome} (h : ∀ b, job.Routes (wait b))
    (fulfilled : Bool) (order : Order) : job.Routes (job.settle wait fulfilled order) := by
  have hSettled : ∀ order, job.Routes (job.advance (fun _ => wait true) (wait true) order) :=
    routes_advance (fun _ => h true) (h true)
  unfold settle
  cases fulfilled with
  | true => exact hSettled order
  | false =>
    refine routes_advance (fun order => ?_) (h false) order
    exact routes_fulfill (Makes.attempt routes_fetch hSettled) order

theorem routes_poll (polling : Polling) (attempts : Nat) (fulfilled : Bool) :
    job.Routes (job.poll polling attempts fulfilled) := by
  induction attempts generalizing fulfilled with
  | zero => trivial
  | succ attempts ih =>
    refine Makes.attempt (Attempt.makes_lift (makes_ask trivial)) fun waited => ?_
    cases waited with
    | shutdown => trivial
    | elapsed => exact Makes.attempt routes_fetch fun order => routes_settle ih fulfilled order

theorem routes_run (polling : Polling) : job.Routes (job.run polling) :=
  Makes.attempt routes_fetch fun order => routes_settle (routes_poll polling _) false order

end Job

end Enrollment
