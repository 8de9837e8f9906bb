import Enrollment.Proofs.Issuing.SolverTrace

/-! # The discipline of solving

A proof that can be shown at all is shown once, and taken away once and after everything else,
however the solving of its challenge ends. What it comes to is decided by the turns before.
-/

namespace Enrollment

/-- A challenge of a kind after which there is none of that kind. -/
def Challenge.IsLast (kind : ChallengeKind) (challenges : List Challenge) (challenge : Challenge) :
    Prop :=
  challenge.kind = kind ∧ ∃ before after, challenges = before ++ challenge :: after ∧
    ∀ other ∈ after, other.kind ≠ kind

/-- What a turn decides on its own. -/
def Turn.decision? : Turn IssuerCall.Answer → Option (Except SolveError ChallengeStatus)
  | ⟨.provision _ _, .error e⟩ => some (.error (.provision e))
  | ⟨.service _ (.validation _) _, .error e⟩ => some (.error (.service e))
  | ⟨.service _ (.challenge _) _, .error e⟩ => some (.error (.service e))
  | ⟨.service _ (.challenge _) _, .ok current⟩ =>
    if current.status = .valid ∨ current.status = .invalid then some (.ok current.status) else none
  | ⟨.wait _, .shutdown⟩ => some (.error .shutdown)
  | _ => none

namespace Solver

open Procedure

def times (part : SolverPart) (trace : Trace) : Nat :=
  trace.countP fun turn => turn.call.solverPart? = some part

@[simp] theorem times_nil (part : SolverPart) : times part [] = 0 := rfl

theorem times_cons (part : SolverPart) (turn : Turn IssuerCall.Answer) (trace : Trace) :
    times part (turn :: trace) =
      times part trace + if turn.call.solverPart? = some part then 1 else 0 := by
  simp [times, List.countP_cons]

variable (solver : Solver) (task : SolverTask)

/-- The calls that may be made while a proof is shown. -/
def calls : List IssuerCall := [
  .provision task.method task.proof,
  .service task.environment (.validation task.challenge.url) task.proof.key,
  .service task.environment (.challenge task.challenge.url) task.proof.key,
  .wait solver.polling.interval]

/-- What is done while a proof is shown, and how it is decided. -/
structure Handled (shown : Trace) (result : Except SolveError ChallengeStatus) : Prop where
  provisions : ∃ answer later, shown = task.provisioned answer :: later ∧ times .provision later = 0
  own : ∀ turn ∈ shown, turn.call ∈ solver.calls task
  validates : times .validation shown ≤ 1 ∧
    (times .validation shown = 1 ↔ task.provisioned (.ok ()) ∈ shown)
  reads : times .reading shown ≤ solver.polling.attempts
  follows : ∀ before answer after, shown = before ++ task.read answer :: after →
    ∃ started, task.validated (.ok started) ∈ before
  decided : result =
    (shown.findSome? Turn.decision?).getD (.error (.unsettled solver.polling.attempts))
  ends : ∀ turn ∈ shown.dropLast, turn.decision? = none
  exhausts : shown.findSome? Turn.decision? = none → times .reading shown = solver.polling.attempts
  solves : ∀ status, result = .ok status ↔
    ∃ current, shown.getLast? = some (task.read (.ok current)) ∧ current.status = status ∧
      (status = .valid ∨ status = .invalid)

section

variable {solver : Solver} {task : SolverTask} {left : Nat} {trace : Trace}
  {result : Except SolveError ChallengeStatus}

theorem isSettled_iff {status : ChallengeStatus} :
    isSettled status = true ↔ status = .valid ∨ status = .invalid := by
  cases status <;> decide

theorem undecided_cons {turn : Turn IssuerCall.Answer} {later : Trace}
    (h : turn.decision? = none) (hLater : ∀ turn ∈ later.dropLast, turn.decision? = none) :
    ∀ other ∈ (turn :: later).dropLast, other.decision? = none := by
  cases later with
  | nil => simp
  | cons next later =>
    rw [List.dropLast_cons_cons]
    exact List.forall_mem_cons.mpr ⟨h, hLater⟩

@[simp] theorem decision?_elapsed : (solver.waited .elapsed).decision? = none := rfl

@[simp] theorem decision?_validated {current : Challenge} :
    (task.validated (.ok current)).decision? = none := rfl

@[simp] theorem decision?_provisioned : (task.provisioned (.ok ())).decision? = none := rfl

theorem decision?_read {current : Challenge} : (task.read (.ok current)).decision? =
    if isSettled current.status then some (.ok current.status) else none := by
  simp only [SolverTask.read, Turn.decision?, isSettled_iff]

/-- Only a reading decides that a challenge is solved. -/
theorem decision?_eq_ok {turn : Turn IssuerCall.Answer} {status : ChallengeStatus}
    (hOwn : turn.call ∈ solver.calls task) (h : turn.decision? = some (.ok status)) :
    ∃ current, turn = task.read (.ok current) ∧ current.status = status ∧
      isSettled status = true := by
  obtain ⟨call, answer⟩ := turn
  simp only [calls, List.mem_cons, List.not_mem_nil, or_false] at hOwn
  rcases hOwn with rfl | rfl | rfl | rfl
  · cases answer <;> cases h
  · cases answer <;> cases h
  · cases answer with
    | error e => cases h
    | ok current =>
      obtain ⟨hSettled, hStatus⟩ := Option.ite_none_right_eq_some.mp (decision?_read.symm.trans h)
      cases hStatus
      exact ⟨current, rfl, rfl, hSettled⟩
  · cases answer <;> cases h

theorem times_round (answer : Except ClientError Challenge) (later : Trace) :
    times .reading (solver.waited .elapsed :: task.read answer :: later) =
      times .reading later + 1 := by
  simp [times_cons, waited, SolverTask.read, IssuerCall.solverPart?]

theorem findSome?_round {current : Challenge} (h : isSettled current.status = false)
    (later : Trace) :
    (solver.waited .elapsed :: task.read (.ok current) :: later).findSome? Turn.decision? =
      later.findSome? Turn.decision? := by
  simp [List.findSome?_cons, decision?_read, h]

theorem Polled.own (h : solver.Polled task left trace result) :
    ∀ turn ∈ trace, turn.call = .wait solver.polling.interval ∨
      turn.call = .service task.environment (.challenge task.challenge.url) task.proof.key := by
  induction h with
  | exhausted | shutdown | failed | settled => simp [waited, SolverTask.read]
  | again _ _ ih =>
    exact List.forall_mem_cons.mpr ⟨.inl rfl, List.forall_mem_cons.mpr ⟨.inr rfl, ih⟩⟩

theorem Polled.reads (h : solver.Polled task left trace result) : times .reading trace ≤ left := by
  induction h with
  | exhausted => exact Nat.le_refl 0
  | shutdown left => exact Nat.zero_le _
  | failed left | settled left =>
    rw [times_round]
    exact Nat.succ_le_succ (Nat.zero_le left)
  | again _ _ ih =>
    rw [times_round]
    exact Nat.succ_le_succ ih

theorem Polled.decided (h : solver.Polled task left trace result) : result =
    (trace.findSome? Turn.decision?).getD (.error (.unsettled solver.polling.attempts)) := by
  induction h with
  | exhausted | shutdown | failed => rfl
  | settled left current h => simp [List.findSome?_cons, decision?_read, h]
  | again h _ ih => rw [findSome?_round h, ← ih]

theorem Polled.exhausts (h : solver.Polled task left trace result)
    (hOpen : trace.findSome? Turn.decision? = none) : times .reading trace = left := by
  induction h with
  | exhausted => rfl
  | shutdown | failed => cases hOpen
  | settled left current h => simp [List.findSome?_cons, decision?_read, h] at hOpen
  | again h _ ih => rw [times_round, ih (by rwa [findSome?_round h] at hOpen)]

theorem Polled.ends (h : solver.Polled task left trace result) :
    ∀ turn ∈ trace.dropLast, turn.decision? = none := by
  induction h with
  | exhausted | shutdown => simp
  | failed | settled => exact undecided_cons rfl (by simp)
  | again h _ ih => exact undecided_cons rfl (undecided_cons (by simp [decision?_read, h]) ih)

/-- If all turns but the last decide nothing, it is the last on which a solved challenge is read. -/
theorem solves_iff {shown : Trace} (own : ∀ turn ∈ shown, turn.call ∈ solver.calls task)
    (decided : result =
      (shown.findSome? Turn.decision?).getD (.error (.unsettled solver.polling.attempts)))
    (ends : ∀ turn ∈ shown.dropLast, turn.decision? = none) (status : ChallengeStatus) :
    result = .ok status ↔
      ∃ current, shown.getLast? = some (task.read (.ok current)) ∧ current.status = status ∧
        (status = .valid ∨ status = .invalid) := by
  rcases List.eq_nil_or_concat shown with rfl | ⟨before, last, rfl⟩
  · simp [decided]
  · have hBefore : before.findSome? Turn.decision? = none := by
      simpa [List.findSome?_eq_none_iff] using ends
    have hLast : result = last.decision?.getD (.error (.unsettled solver.polling.attempts)) := by
      rw [decided, List.concat_eq_append, List.findSome?_append, hBefore, Option.none_or]
      cases h : last.decision? <;> simp [h]
    rw [List.concat_eq_append, List.getLast?_concat, hLast]
    constructor
    · intro hOk
      cases hDecision : last.decision? with
      | none => rw [hDecision] at hOk; cases hOk
      | some decision =>
        rw [hDecision] at hOk
        obtain rfl : decision = .ok status := hOk
        obtain ⟨current, rfl, hStatus, hSettled⟩ := decision?_eq_ok (own last (by simp)) hDecision
        exact ⟨current, rfl, hStatus, isSettled_iff.mp hSettled⟩
    · rintro ⟨current, hRead, rfl, hSettled⟩
      obtain rfl := Option.some.inj hRead
      rw [decision?_read, if_pos (isSettled_iff.mpr hSettled)]
      rfl

theorem Polled.times_eq_zero (h : solver.Polled task left trace result) {part : SolverPart}
    (hWait : part ≠ .wait) (hReading : part ≠ .reading) : times part trace = 0 := by
  refine List.countP_eq_zero.mpr fun turn hMem => ?_
  rcases h.own turn hMem with hCall | hCall <;> rw [hCall]
  · simpa [IssuerCall.solverPart?] using hWait.symm
  · simpa [IssuerCall.solverPart?] using hReading.symm

theorem times_prelude (part : SolverPart) (started : Except ClientError Challenge) (later : Trace) :
    times part (task.provisioned (.ok ()) :: task.validated started :: later) =
      (times part later + if part = .validation then 1 else 0) +
        if part = .provision then 1 else 0 := by
  simp [times_cons, SolverTask.provisioned, SolverTask.validated, IssuerCall.solverPart?, eq_comm]

theorem Shown.provisions (h : solver.Shown task trace result) :
    ∃ answer later, trace = task.provisioned answer :: later ∧ times .provision later = 0 := by
  cases h with
  | refused e => exact ⟨_, _, rfl, rfl⟩
  | failed e => exact ⟨_, _, rfl, rfl⟩
  | polled h =>
    refine ⟨_, _, rfl, ?_⟩
    simp [times_cons, h.times_eq_zero, SolverTask.validated, IssuerCall.solverPart?]

theorem Shown.own (h : solver.Shown task trace result) :
    ∀ turn ∈ trace, turn.call ∈ solver.calls task := by
  cases h with
  | refused e => simp [calls, SolverTask.provisioned]
  | failed e => simp [calls, SolverTask.provisioned, SolverTask.validated]
  | polled h =>
    refine List.forall_mem_cons.mpr ⟨by simp [calls, SolverTask.provisioned], ?_⟩
    refine List.forall_mem_cons.mpr ⟨by simp [calls, SolverTask.validated], fun turn hMem => ?_⟩
    rcases h.own turn hMem with hCall | hCall <;> simp [calls, hCall]

theorem Shown.validates (h : solver.Shown task trace result) : times .validation trace ≤ 1 ∧
    (times .validation trace = 1 ↔ task.provisioned (.ok ()) ∈ trace) := by
  cases h with
  | refused e => simp [times_cons, SolverTask.provisioned, IssuerCall.solverPart?]
  | failed e => simp [times_prelude]
  | polled h => simp [times_prelude, h.times_eq_zero]

theorem Shown.reads (h : solver.Shown task trace result) :
    times .reading trace ≤ solver.polling.attempts := by
  cases h with
  | refused e | failed e => exact Nat.zero_le _
  | polled h => simpa [times_prelude] using h.reads

theorem cons_eq_append_read {turn : Turn IssuerCall.Answer} {later before after : Trace}
    {answer : Except ClientError Challenge} (h : turn.call.solverPart? ≠ some .reading)
    (hTrace : turn :: later = before ++ task.read answer :: after) :
    ∃ between, before = turn :: between ∧ later = between ++ task.read answer :: after := by
  rcases List.append_eq_cons_iff.mp hTrace.symm with ⟨-, hRead⟩ | hLater
  · rw [(List.cons.inj hRead).1.symm] at h
    exact absurd rfl h
  · exact hLater

theorem Shown.follows (h : solver.Shown task trace result) {before after : Trace}
    {answer : Except ClientError Challenge} (hTrace : trace = before ++ task.read answer :: after) :
    ∃ started, task.validated (.ok started) ∈ before := by
  cases h with
  | refused e =>
    obtain ⟨between, -, hNone⟩ := cons_eq_append_read (by nofun) hTrace
    simp at hNone
  | failed e =>
    obtain ⟨between, -, hLater⟩ := cons_eq_append_read (by nofun) hTrace
    obtain ⟨between, -, hNone⟩ := cons_eq_append_read (by nofun) hLater
    simp at hNone
  | polled h =>
    obtain ⟨between, rfl, hLater⟩ := cons_eq_append_read (by nofun) hTrace
    obtain ⟨between, rfl, -⟩ := cons_eq_append_read (by nofun) hLater
    exact ⟨_, List.mem_cons_of_mem _ List.mem_cons_self⟩

theorem Shown.decided (h : solver.Shown task trace result) : result =
    (trace.findSome? Turn.decision?).getD (.error (.unsettled solver.polling.attempts)) := by
  cases h with
  | refused e | failed e => rfl
  | polled h => simpa [List.findSome?_cons] using h.decided

theorem Shown.ends (h : solver.Shown task trace result) :
    ∀ turn ∈ trace.dropLast, turn.decision? = none := by
  cases h with
  | refused e => simp
  | failed e => exact undecided_cons rfl (by simp)
  | polled h => exact undecided_cons rfl (undecided_cons rfl h.ends)

theorem Shown.exhausts (h : solver.Shown task trace result)
    (hOpen : trace.findSome? Turn.decision? = none) :
    times .reading trace = solver.polling.attempts := by
  cases h with
  | refused e | failed e => cases hOpen
  | polled h => simpa [times_prelude] using h.exhausts (by simpa [List.findSome?_cons] using hOpen)

theorem Shown.handled (h : solver.Shown task trace result) : solver.Handled task trace result where
  provisions := h.provisions
  own := h.own
  validates := h.validates
  reads := h.reads
  follows _ _ _ := h.follows
  decided := h.decided
  ends := h.ends
  exhausts := h.exhausts
  solves := solves_iff h.own h.decided h.ends

theorem notice_of_mem_kept (answer : Except ProviderError Unit) :
    ∀ turn ∈ kept answer ++ unsolved result, turn.call.solverPart? = some .notice := by
  cases answer <;> cases result <;> simp [kept, unsolved, IssuerCall.solverPart?]

end

variable (identifier : Identifier) (challenges : List Challenge) (method : ChallengeMethod)
  (key : AccountKey) (environment : Environment)

theorem lastOf?_eq_some_iff {kind : ChallengeKind} {challenge : Challenge} :
    lastOf? kind challenges = some challenge ↔ challenge.IsLast kind challenges := by
  simp only [lastOf?, List.find?_eq_some_iff_append, Challenge.IsLast, decide_eq_true_eq]
  refine and_congr_right fun _ => ⟨?_, ?_⟩
  · rintro ⟨after, before, hReverse, hAfter⟩
    refine ⟨before.reverse, after.reverse, ?_, by simpa using hAfter⟩
    rw [← challenges.reverse_reverse, hReverse]
    simp
  · rintro ⟨before, after, rfl, hAfter⟩
    exact ⟨after.reverse, before.reverse, by simp, by simpa using hAfter⟩

theorem lastOf?_eq_none_iff {kind : ChallengeKind} :
    lastOf? kind challenges = none ↔ ∀ challenge ∈ challenges, challenge.kind ≠ kind := by
  simp [lastOf?]

/-- How challenges are solved by a method. -/
structure Disciplined (trace : Trace) (result : Except SolveError ChallengeStatus) : Prop where
  noChallenge : (∀ challenge ∈ challenges, challenge.kind ≠ method.kind) →
    trace = [] ∧ result = .error (.noChallenge method.kind.name)
  missingToken : ∀ challenge : Challenge, challenge.IsLast method.kind challenges →
    challenge.token = none → trace = [] ∧ result = .error .missingToken
  noProvider : ∀ (challenge : Challenge) token, challenge.IsLast method.kind challenges →
    challenge.token = some token → method.id ∉ solver.methods →
    trace = [] ∧ result = .error (.noProvider method.id)
  handled : ∀ (challenge : Challenge) token, challenge.IsLast method.kind challenges →
    challenge.token = some token → method.id ∈ solver.methods →
    let task : SolverTask := ⟨challenge, method, ⟨identifier, token, key⟩, environment⟩
    ∃ shown answer notices, trace = shown ++ task.deprovisioned answer :: notices ∧
      (∀ turn ∈ notices, turn.call.solverPart? = some .notice) ∧
      solver.Handled task shown result ∧
      ∀ other, ∃ notices, Runs (solver.solve identifier challenges method key environment)
        (shown ++ task.deprovisioned other :: notices) result

theorem disciplined_of_runs {trace : Trace} {result : Except SolveError ChallengeStatus}
    (run : Runs (solver.solve identifier challenges method key environment) trace result) :
    solver.Disciplined identifier challenges method key environment trace result where
  noChallenge hNone := by
    rw [solve, select, (lastOf?_eq_none_iff challenges).mpr hNone] at run
    exact runs_done_iff.mp run
  missingToken challenge hLast hToken := by
    simp only [solve, select, (lastOf?_eq_some_iff challenges).mpr hLast, hToken] at run
    exact runs_done_iff.mp run
  noProvider challenge token hLast hToken hMethod := by
    simp only [solve, select, (lastOf?_eq_some_iff challenges).mpr hLast, hToken,
      List.contains_eq_mem, hMethod, decide_false] at run
    exact runs_done_iff.mp run
  handled challenge token hLast hToken hMethod := by
    intro task
    have hSolve : solver.solve identifier challenges method key environment =
        solver.solveTask task := by
      simp only [solve, select, (lastOf?_eq_some_iff challenges).mpr hLast, hToken,
        List.contains_eq_mem, hMethod, decide_true, if_true, task]
    rw [hSolve] at run
    obtain ⟨shown, answer, rfl, hShown⟩ := runs_solveTask_iff.mp run
    refine ⟨shown, answer, _, rfl, notice_of_mem_kept answer, (shown_of_runs hShown).handled, ?_⟩
    intro other
    rw [hSolve]
    exact ⟨_, runs_solveTask_iff.mpr ⟨shown, other, rfl, hShown⟩⟩

/-- From wherever the solving of a challenge has come to, it comes to its end whatever it is
answered, and then all of it was as it should be. -/
theorem solve_disciplined {trace : Trace} {rest : Work (Except SolveError ChallengeStatus)}
    (h : Leads (solver.solve identifier challenges method key environment) trace rest) :
    (∀ answers : Trace → (c : IssuerCall) → c.Answer,
      ∃ later result, Runs rest later result ∧ Follows answers trace later) ∧
    ∀ later result, Runs rest later result →
      solver.Disciplined identifier challenges method key environment (trace ++ later) result :=
  ⟨fun answers => exists_runs answers trace rest, fun _ _ run =>
    solver.disciplined_of_runs identifier challenges method key environment (h.trans run)⟩

/-- Of two challenges of its kind the last is solved. Shutdown ends the polling, and the proof is
taken away although its provider fails to do so. -/
theorem disciplined_of_late_shutdown :
    let url : Url := ⟨"https", none, .segments ["challenge"], none, none⟩
    let challenge (token : String) : Challenge := ⟨.http01, .pending, url, some token, none, none⟩
    let key : AccountKey := ⟨.curve .p256 1 (by decide), none⟩
    let solver : Solver := ⟨["http-01-internal"], ⟨2, 20⟩⟩
    let task : SolverTask :=
      ⟨challenge "new", .webInternal, ⟨.dns "example.org", "new", key⟩, .staging⟩
    let trace : Trace := [task.provisioned (.ok ()), task.validated (.ok (challenge "new")),
      solver.waited .elapsed, task.read (.ok (challenge "new")), solver.waited .shutdown,
      task.deprovisioned (.error (.backend "web" "down")), ⟨.notify .proofKept, ()⟩,
      ⟨.notify .challengeUnsolved, ()⟩]
    Runs (solver.solve (.dns "example.org") [challenge "old", challenge "new"] .webInternal key
        .staging) trace (.error .shutdown) ∧
      solver.Disciplined (.dns "example.org") [challenge "old", challenge "new"] .webInternal key
        .staging trace (.error .shutdown) := by
  intro url challenge key solver task trace
  have run : Runs (solver.solve (.dns "example.org") [challenge "old", challenge "new"] .webInternal
      key .staging) trace (.error .shutdown) :=
    .turn _ (.turn _ (.turn _ (.turn _ (.turn _ (.turn _ (.turn _ (.turn _ (.here _))))))))
  exact ⟨run, (solver.solve_disciplined _ _ _ _ _ (.here _)).2 _ _ run⟩

end Solver

end Enrollment
