import Enrollment.Issuing.Job
import Enrollment.Proofs.Procedure.Completion

/-! # The errors of order jobs

A job fails with what went wrong while it was processed. That an order was not queued, or that a
ticket ended without a result, is no error that processing can come to.
-/

namespace Enrollment

open Procedure

/-- The errors that processing an order can end with. -/
def JobError.isOfJob : JobError → Bool
  | store _ | service _ | fulfill _ | request _ | noCertificateUrl _ | unsettled _
  | shutdown => true
  | identifiers _ | queueClosed | cancelled => false

/-- Whatever it is answered, work fails with such errors only. -/
def Fails {ε α : Type} (allowed : ε → Prop) (work : Attempt ε α) : Prop :=
  ∀ trace e, Runs work.run trace (.error e) → allowed e

namespace Fails

variable {ε δ α β : Type} {allowed : ε → Prop}

theorem bind {p : Attempt ε α} {f : α → Attempt ε β} (h : Fails allowed p)
    (hNext : ∀ a, Fails allowed (f a)) : Fails allowed (p >>= f) := by
  intro trace e run
  rcases run.attempt with ⟨e', hFails, hError⟩ | ⟨before, a, after, -, -, hRest⟩
  · cases hError
    exact h trace e hFails
  · exact hNext a after e hRest

theorem pure (a : α) : Fails allowed (pure a : Attempt ε α) := by
  intro trace e run
  obtain ⟨-, hError⟩ := runs_done_iff.mp run
  cases hError

theorem throw {e : ε} (h : allowed e) : Fails allowed (throw e : Attempt ε α) := by
  intro trace e' run
  obtain ⟨-, hError⟩ := runs_done_iff.mp run
  cases hError
  exact h

theorem ofExcept (result : Except δ α) {wrap : δ → ε} (h : ∀ cause, allowed (wrap cause)) :
    Fails allowed (Attempt.ofExcept result wrap) := by
  intro trace e run
  obtain ⟨-, hError⟩ := runs_done_iff.mp run
  cases result with
  | ok a => cases hError
  | error cause =>
    cases hError
    exact h cause

theorem ofWork (work : Work (Except δ α)) {wrap : δ → ε} (h : ∀ cause, allowed (wrap cause)) :
    Fails allowed (Attempt.ofWork work wrap) := by
  intro trace e run
  obtain ⟨before, result, after, -, -, hRest⟩ := runs_bind_iff.mp run
  exact ofExcept result h after e hRest

theorem lift (work : Work α) : Fails allowed (ExceptT.lift work : Attempt ε α) := by
  intro trace e run
  obtain ⟨before, a, after, -, -, hRest⟩ := runs_bind_iff.mp run
  obtain ⟨-, hError⟩ := runs_done_iff.mp hRest
  cases hError

end Fails

namespace Job

abbrev FailsOwn {α : Type} (work : Attempt JobError α) : Prop :=
  Fails (fun e : JobError => e.isOfJob = true) work

section

variable {job : Job}

theorem failsOwn_askStore (request : StoreRequest) : FailsOwn (askStore request) :=
  .ofWork _ fun _ => rfl

theorem failsOwn_askService (request : ServiceRequest) : FailsOwn (job.askService request) :=
  .ofWork _ fun _ => rfl

theorem failsOwn_receive {request : Attempt JobError Order} (h : FailsOwn request) :
    FailsOwn (job.receive request) :=
  h.bind fun order => (failsOwn_askStore _).bind fun _ => .pure order

theorem failsOwn_fetch : FailsOwn job.fetch := failsOwn_receive (failsOwn_askService _)

theorem failsOwn_finalize (order : Order) : FailsOwn (job.finalize order) :=
  Fails.bind (.ofExcept _ fun _ => rfl) fun _ => failsOwn_receive (failsOwn_askService _)

theorem failsOwn_save (order : Order) : FailsOwn (job.save order) := by
  unfold save
  cases order.certificate with
  | none => exact .throw rfl
  | some url =>
    exact Fails.bind (failsOwn_askService (.certificate url)) fun chain =>
      (failsOwn_askStore (.saveCertificate job.id chain)).bind fun _ => .pure Outcome.issued

theorem failsOwn_giveUp (notice : Notice) : FailsOwn (job.giveUp notice) :=
  (Fails.lift _).bind fun _ => (failsOwn_askStore _).bind fun _ => .pure Outcome.invalid

theorem failsOwn_fulfill {next : Attempt JobError Outcome} (h : FailsOwn next) (order : Order) :
    FailsOwn (job.fulfill next order) := by
  refine Fails.bind (.ofWork _ fun _ => rfl) fun status => ?_
  split
  · exact h
  · exact failsOwn_giveUp _

theorem failsOwn_advance {onPending : Order → Attempt JobError Outcome}
    {wait : Attempt JobError Outcome} (hPending : ∀ order, FailsOwn (onPending order))
    (hWait : FailsOwn wait) (order : Order) : FailsOwn (job.advance onPending wait order) := by
  unfold advance
  cases order.status with
  | pending => exact hPending order
  | processing => exact hWait
  | valid => exact failsOwn_save order
  | invalid => exact failsOwn_giveUp _
  | ready =>
    refine (failsOwn_finalize order).bind fun finalized => ?_
    cases finalized.status with
    | pending => exact hPending finalized
    | processing | ready => exact hWait
    | valid => exact failsOwn_save finalized
    | invalid => exact failsOwn_giveUp _

theorem failsOwn_settle {wait : Bool → Attempt JobError Outcome} (h : ∀ b, FailsOwn (wait b))
    (fulfilled : Bool) (order : Order) : FailsOwn (job.settle wait fulfilled order) := by
  have hSettled : ∀ order, FailsOwn (job.advance (fun _ => wait true) (wait true) order) :=
    failsOwn_advance (fun _ => h true) (h true)
  unfold settle
  cases fulfilled with
  | true => exact hSettled order
  | false =>
    exact failsOwn_advance (failsOwn_fulfill (failsOwn_fetch.bind hSettled)) (h false) order

theorem failsOwn_poll (polling : Polling) (attempts : Nat) (fulfilled : Bool) :
    FailsOwn (job.poll polling attempts fulfilled) := by
  induction attempts generalizing fulfilled with
  | zero => exact .throw rfl
  | succ attempts ih =>
    refine (Fails.lift _).bind fun waited => ?_
    cases waited with
    | shutdown => exact .throw rfl
    | elapsed => exact failsOwn_fetch.bind fun order => failsOwn_settle ih fulfilled order

end

/-- Every error of a job is one of processing. -/
theorem isOfJob_of_process {polling : Polling} {id : Int} {trace : List (Turn IssuerCall.Answer)}
    {e : JobError} (run : Runs (process polling id) trace (.error e)) : e.isOfJob = true := by
  have hLoad : FailsOwn (load id) :=
    (failsOwn_askStore _).bind fun order => (failsOwn_askStore _).bind fun _ => .pure _
  have hRun (job : Job) : FailsOwn (job.run polling) :=
    failsOwn_fetch.bind fun order => failsOwn_settle (failsOwn_poll polling _) false order
  exact hLoad.bind hRun trace e run

end Job

end Enrollment
