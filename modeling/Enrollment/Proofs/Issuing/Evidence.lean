import Enrollment.Proofs.Issuing.Routing
import Enrollment.Proofs.Issuing.SolverDiscipline

/-! # What a status rests on

The work on a task comes to a status by what a server has sent: the authorization itself, or the
challenge of it that was read last. Both were asked of the service of the task's environment.
-/

namespace Enrollment

open Procedure

namespace Attempt

variable {α δ ε : Type} {work : Work (Except δ α)} {outcome : Except δ α} {wrap : δ → ε}
  {trace : List (Turn IssuerCall.Answer)} {a : α} {e : ε}

theorem runs_ofWork_iff {result : Except ε α} : Runs (ofWork work wrap).run trace result ↔
    ∃ answer, Runs work trace answer ∧ result = answer.mapError wrap := by
  constructor
  · intro run
    obtain ⟨before, answer, after, rfl, hWork, hDone⟩ := runs_bind_iff.mp run
    obtain ⟨rfl, rfl⟩ := runs_done_iff.mp hDone
    exact ⟨answer, by rwa [List.append_nil], rfl⟩
  · rintro ⟨answer, hWork, rfl⟩
    exact runs_bind_iff.mpr ⟨trace, answer, [], (List.append_nil _).symm, hWork, .here _⟩

theorem runs_ofWork_ok_iff :
    Runs (ofWork work wrap).run trace (.ok a) ↔ Runs work trace (.ok a) := by
  rw [runs_ofWork_iff]
  constructor
  · rintro ⟨answer, hWork, hResult⟩
    cases answer <;> cases hResult
    exact hWork
  · intro hWork
    exact ⟨.ok a, hWork, rfl⟩

theorem runs_ofWork_error_iff : Runs (ofWork work wrap).run trace (.error e) ↔
    ∃ cause, Runs work trace (.error cause) ∧ e = wrap cause := by
  rw [runs_ofWork_iff]
  constructor
  · rintro ⟨answer, hWork, hResult⟩
    cases answer <;> cases hResult
    exact ⟨_, hWork, rfl⟩
  · rintro ⟨cause, hWork, rfl⟩
    exact ⟨.error cause, hWork, rfl⟩

theorem runs_ofExcept_ok_iff :
    Runs (ofExcept outcome wrap).run trace (.ok a) ↔ trace = [] ∧ outcome = .ok a := by
  refine runs_done_iff.trans (and_congr_right fun _ => ?_)
  cases outcome with
  | error cause =>
    constructor <;> intro h <;> cases h
  | ok b =>
    constructor <;> intro h <;> cases h <;> rfl

theorem runs_ofExcept_error_iff : Runs (ofExcept outcome wrap).run trace (.error e) ↔
    trace = [] ∧ ∃ cause, outcome = .error cause ∧ e = wrap cause := by
  refine runs_done_iff.trans (and_congr_right fun _ => ?_)
  cases outcome with
  | error cause =>
    constructor
    · intro h
      exact ⟨cause, rfl, Except.error.inj h⟩
    · rintro ⟨_, h, rfl⟩
      cases h
      rfl
  | ok b =>
    constructor
    · intro h
      cases h
    · rintro ⟨_, h, -⟩
      cases h

end Attempt

/-- What a challenge that is over makes of its authorization. -/
def ChallengeStatus.settles? : ChallengeStatus → Option AuthorizationStatus
  | .valid => some .valid
  | .invalid => some .invalid
  | .pending | .processing => none

namespace AuthorizationTask

variable (task : AuthorizationTask)

def fetched (authorization : Authorization) : Turn IssuerCall.Answer :=
  ⟨.service task.environment (.authorization task.url) task.key, .ok authorization⟩

def read (url : Url) (challenge : Challenge) : Turn IssuerCall.Answer :=
  ⟨.service task.environment (.challenge url) task.key, .ok challenge⟩

/-- What has been read makes for a status: the authorization as it is, or, if that is pending, what
became of one of its challenges. -/
inductive Derives : List (Turn IssuerCall.Answer) → AuthorizationStatus → Prop where
  | told (authorization : Authorization) (settled : authorization.status ≠ .pending) :
    Derives [task.fetched authorization] authorization.status
  | solved {authorization : Authorization} {challenge current : Challenge}
    {before after : List (Turn IssuerCall.Answer)} {status : AuthorizationStatus}
    (pending : authorization.status = .pending) (mem : challenge ∈ authorization.challenges)
    (settles : current.status.settles? = some status)
    (last : ∀ turn ∈ after, turn.call.solverPart? ≠ some .reading) :
    Derives (task.fetched authorization :: (before ++ task.read challenge.url current :: after))
      status

end AuthorizationTask

namespace Solver

/-- A challenge that is solved was one of those offered, and was last read as what it came to. -/
theorem exists_read_of_runs {solver : Solver} {identifier : Identifier}
    {challenges : List Challenge} {method : ChallengeMethod} {key : AccountKey}
    {environment : Environment} {trace : Trace} {status : ChallengeStatus}
    (run : Runs (solver.solve identifier challenges method key environment) trace (.ok status)) :
    ∃ challenge ∈ challenges, ∃ before current after, trace = before ++
        ⟨.service environment (.challenge challenge.url) key, .ok current⟩ :: after ∧
      current.status = status ∧ (status = .valid ∨ status = .invalid) ∧
      ∀ turn ∈ after, turn.call.solverPart? ≠ some .reading := by
  unfold solve at run
  split at run
  · obtain ⟨-, hError⟩ := runs_done_iff.mp run
    cases hError
  · next task hSelect =>
    obtain ⟨hMem, rfl, rfl⟩ := select_eq_ok hSelect
    obtain ⟨shown, answer, rfl, hShown⟩ := runs_solveTask_iff.mp run
    obtain ⟨current, hLast, hStatus, hSettled⟩ :=
      ((shown_of_runs hShown).handled.solves status).mp rfl
    obtain ⟨before, rfl⟩ := List.getLast?_eq_some_iff.mp hLast
    -- After the last read the proof is taken away and problems are told, and nothing is read.
    refine ⟨task.challenge, hMem, before, current,
      task.deprovisioned answer :: (kept answer ++ unsolved (.ok status)), ?_, hStatus, hSettled, ?_⟩
    · rw [List.append_assoc]
      rfl
    · refine List.forall_mem_cons.mpr ⟨nofun, fun turn hTurn => ?_⟩
      rw [notice_of_mem_kept answer turn hTurn]
      exact nofun

end Solver

namespace Authorizations

theorem derives_of_runs {solver : Solver} {task : AuthorizationTask}
    {trace : List (Turn IssuerCall.Answer)} {status : AuthorizationStatus}
    (run : Runs (fulfillOne solver task) trace (.ok status)) : task.Derives trace status := by
  rcases Runs.attempt run with ⟨e, -, hError⟩ | ⟨first, authorization, after, rfl, hFetch, hStatus⟩
  · cases hError
  obtain rfl := runs_ask_iff.mp (Attempt.runs_ofWork_ok_iff.mp hFetch)
  cases hAuthorization : authorization.status with
  | pending =>
    simp only [hAuthorization] at hStatus
    rcases Runs.attempt hStatus with ⟨e, -, hError⟩ | ⟨solving, solved, last, rfl, hSolve, hSolved⟩
    · cases hError
    obtain ⟨challenge, hMem, before, current, after, rfl, rfl, hSettled, hLast⟩ :=
      Solver.exists_read_of_runs (Attempt.runs_ofWork_ok_iff.mp hSolve)
    have hEnd : last = [] ∧ current.status.settles? = some status := by
      rcases hSettled with hValid | hInvalid
      · rw [if_pos hValid] at hSolved
        obtain ⟨rfl, hResult⟩ := runs_done_iff.mp hSolved
        cases hResult
        exact ⟨rfl, congrArg ChallengeStatus.settles? hValid⟩
      · rw [if_neg (by rw [hInvalid]; nofun)] at hSolved
        obtain ⟨rfl, hResult⟩ := runs_done_iff.mp hSolved
        cases hResult
        exact ⟨rfl, congrArg ChallengeStatus.settles? hInvalid⟩
    obtain ⟨rfl, hSettles⟩ := hEnd
    rw [List.append_nil]
    exact .solved hAuthorization hMem hSettles hLast
  | unknown name =>
    simp only [hAuthorization] at hStatus
    obtain ⟨-, hError⟩ := runs_done_iff.mp hStatus
    cases hError
  | valid | invalid | deactivated | expired | revoked =>
    simp only [hAuthorization] at hStatus
    obtain ⟨rfl, hResult⟩ := runs_done_iff.mp hStatus
    cases hResult
    rw [← hAuthorization]
    exact .told authorization (by rw [hAuthorization]; nofun)

end Authorizations

end Enrollment
