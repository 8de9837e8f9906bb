import Enrollment.Proofs.Challenge.WebProof
import Enrollment.Proofs.Lookup

/-! # Solvers that share a web server

Any number of solvers show their proofs on one web server, a call at a time in any order, while the
server that validates them answers as it likes. As long as no two of them have the same token, each
finds at its token what it would find alone.
-/

namespace Enrollment

/-- A run of a solver: what it was called with, and what it has still to do. -/
structure Solving where
  solver : Solver
  identifier : Identifier
  challenges : List Challenge
  method : ChallengeMethod
  key : AccountKey
  environment : Environment
  rest : Work (Except SolveError ChallengeStatus)

namespace Solving

open Procedure

def task (run : Solving) : Except SolveError SolverTask :=
  run.solver.select run.identifier run.challenges run.method run.key run.environment

/-- A run without a token fails at once. -/
def token? (run : Solving) : Option String :=
  match run.task with
  | .ok task => some task.proof.token
  | .error _ => none

def path? (run : Solving) : Option String := run.token?.map (KeyAuthorization.wellKnownPath ++ ·)

def IsFresh (run : Solving) : Prop :=
  run.rest = run.solver.solve run.identifier run.challenges run.method run.key run.environment

/-- Whether a run has the server validate its challenge or reads what has become of it. -/
def IsAsking (run : Solving) : Prop :=
  ∃ c, run.rest.pending? = some c ∧
    (c.solverPart? = some .validation ∨ c.solverPart? = some .reading)

/-- What a run has still to do is right for what is shown at its token now. -/
inductive Minds (proofs : WebProofs) (run : Solving) : Prop where
  | failed (e : SolveError) (h : run.task = .error e) (done : run.rest = .done (.error e))
  | solves (task : SolverTask) (h : run.task = .ok task)
    (upholds : run.rest.Upholds (WebProofs.shown task.proof) (fun later _ => later = none)
      (proofs.answer? task.proof.token))

variable {proofs later : WebProofs} {run : Solving} {task : SolverTask} {c : IssuerCall}
  {next : c.Answer → Work (Except SolveError ChallengeStatus)} {answer : c.Answer}

theorem token?_of_task (h : run.task = .ok task) : run.token? = some task.proof.token := by
  rw [token?, h]

theorem key_of_task (h : run.task = .ok task) : task.proof.key = run.key := by
  unfold Solving.task Solver.select at h
  split at h
  · cases h
  · split at h
    · cases h
    · split at h <;> cases h
      rfl

theorem minds_of_isFresh (proofs : WebProofs) (h : run.IsFresh) : run.Minds proofs := by
  cases hTask : run.task with
  | error e =>
    refine .failed e hTask ?_
    rw [h, Solver.solve]
    unfold Solving.task at hTask
    rw [hTask]
    rfl
  | ok task =>
    refine .solves task hTask ?_
    rw [h, Solver.solve]
    unfold Solving.task at hTask
    rw [hTask]
    exact run.solver.solveTask_upholds task _

theorem Minds.of_pending (h : run.Minds proofs) (pending : run.rest = .call c next) :
    ∃ task, run.task = .ok task ∧
      (WebProofs.shown task.proof).permits (proofs.answer? task.proof.token) c ∧
      ∀ answer now, (WebProofs.shown task.proof).answers (proofs.answer? task.proof.token) c answer
        now → (next answer).Upholds (WebProofs.shown task.proof) (fun later _ => later = none) now := by
  cases h with
  | failed e _ done =>
    rw [done] at pending
    cases pending
  | solves task hTask upholds =>
    rw [pending] at upholds
    exact ⟨task, hTask, upholds.1, upholds.2⟩

theorem Minds.turn (h : run.Minds proofs) (pending : run.rest = .call c next)
    (answers : proofs.Answers c answer later) :
    ({ run with rest := next answer } : Solving).Minds later := by
  obtain ⟨task, hTask, permitted, upholds⟩ := h.of_pending pending
  refine .solves task hTask ?_
  exact upholds answer _ (answers.at_self permitted)

/-- Who does not share a token with a run does not notice its calls. -/
theorem Minds.of_other {other : Solving} (h : other.Minds proofs) (hRun : run.Minds proofs)
    (pending : run.rest = .call c next) (answers : proofs.Answers c answer later)
    (apart : ∀ token, run.token? = some token → other.token? ≠ some token) :
    other.Minds later := by
  obtain ⟨task, hTask, permitted, -⟩ := hRun.of_pending pending
  cases h with
  | failed e hFailed done => exact .failed e hFailed done
  | solves task' hTask' upholds =>
    have hOther : task'.proof.token ≠ task.proof.token := by
      intro hEq
      refine apart _ (token?_of_task hTask) ?_
      rw [token?_of_task hTask', hEq]
    refine .solves task' hTask' ?_
    rwa [answers.at_other permitted hOther]

theorem Minds.respond?_other (h : run.Minds proofs) (pending : run.rest = .call c next)
    (answers : proofs.Answers c answer later) {path : String} (other : run.path? ≠ some path) :
    later.respond? path = proofs.respond? path := by
  obtain ⟨task, hTask, permitted, -⟩ := h.of_pending pending
  refine WebProofs.respond?_congr ?_
  rintro token rfl
  refine answers.at_other permitted ?_
  rintro rfl
  exact other (by rw [path?, token?_of_task hTask, Option.map_some])

theorem Minds.answer?_of_isAsking (h : run.Minds proofs) (asking : run.IsAsking) :
    ∃ task authorization, run.task = .ok task ∧
      KeyAuthorization.ofKey task.proof.token task.proof.key = .ok authorization ∧
      proofs.answer? task.proof.token = some authorization.value := by
  obtain ⟨c, hPending, hPart⟩ := asking
  cases hRest : run.rest with
  | done result =>
    rw [hRest] at hPending
    cases hPending
  | call c' next =>
    rw [hRest] at hPending
    cases hPending
    obtain ⟨task, hTask, permitted, -⟩ := h.of_pending hRest
    obtain ⟨authorization, hKey, hShown⟩ := WebProofs.shown_of_permits permitted hPart
    exact ⟨task, authorization, hTask, hKey, hShown⟩

theorem Minds.answer?_of_done (h : run.Minds proofs) {result : Except SolveError ChallengeStatus}
    (done : run.rest = .done result) {token : String} (hToken : run.token? = some token) :
    proofs.answer? token = none := by
  cases h with
  | failed e hFailed _ =>
    rw [token?, hFailed] at hToken
    cases hToken
  | solves task hTask upholds =>
    rw [token?_of_task hTask] at hToken
    cases hToken
    rw [done] at upholds
    exact upholds

end Solving

structure WebServing where
  proofs : WebProofs
  runs : List Solving

namespace WebServing

open Procedure

inductive Step : WebServing → WebServing → Prop where
  | begin {w : WebServing} {run : Solving} (fresh : run.IsFresh) :
    Step w { w with runs := w.runs ++ [run] }
  | turn {w : WebServing} {i : Nat} {run : Solving} {c : IssuerCall}
    {next : c.Answer → Work (Except SolveError ChallengeStatus)} {answer : c.Answer}
    {later : WebProofs} (found : w.runs[i]? = some run) (pending : run.rest = .call c next)
    (answers : w.proofs.Answers c answer later) :
    Step w ⟨later, w.runs.set i { run with rest := next answer }⟩

inductive Reachable (start : WebProofs) : WebServing → Prop where
  | start : Reachable start ⟨start, []⟩
  | step {w v : WebServing} (h : Reachable start w) (step : Step w v) : Reachable start v

/-- No two runs have the same token. -/
def Apart (w : WebServing) : Prop :=
  ∀ (i j : Nat) (run other : Solving) (token : String), w.runs[i]? = some run →
    w.runs[j]? = some other → run.token? = some token → other.token? = some token → i = j

variable {w v : WebServing} {start : WebProofs}

theorem apart_of_two (proofs : WebProofs) {run other : Solving} {token otherToken : String}
    (hRun : run.token? = some token) (hOther : other.token? = some otherToken)
    (h : token ≠ otherToken) : Apart ⟨proofs, [run, other]⟩ := by
  intro i j one another shared found foundOther hOne hAnother
  match i, j with
  | 0, 0 | 1, 1 => rfl
  | 0, 1 =>
    cases found
    cases foundOther
    exact absurd (Option.some.inj (hRun.symm.trans (hOne.trans (hAnother.symm.trans hOther)))) h
  | 1, 0 =>
    cases found
    cases foundOther
    exact absurd (Option.some.inj (hRun.symm.trans (hAnother.trans (hOne.symm.trans hOther)))) h
  | i + 2, _ => cases found
  | _, j + 2 => cases foundOther

theorem Step.token?_kept (step : Step w v) {i : Nat} {run : Solving}
    (found : w.runs[i]? = some run) : ∃ run', v.runs[i]? = some run' ∧ run'.token? = run.token? := by
  cases step with
  | begin fresh => exact ⟨run, getElem?_append_of_some _ found, rfl⟩
  | @turn j mover c next answer later foundMover pending answers =>
    by_cases hIndex : j = i
    · subst hIndex
      obtain rfl := Option.some.inj (foundMover.symm.trans found)
      exact ⟨_, getElem?_set_of_found found _, rfl⟩
    · exact ⟨run, (List.getElem?_set_ne hIndex).trans found, rfl⟩

theorem Step.apart_before (step : Step w v) (apart : v.Apart) : w.Apart := by
  intro i j run other token found foundOther hToken hOther
  obtain ⟨run', found', hKept⟩ := step.token?_kept found
  obtain ⟨other', foundOther', hOtherKept⟩ := step.token?_kept foundOther
  exact apart i j run' other' token found' foundOther' (hKept.trans hToken)
    (hOtherKept.trans hOther)

/-- The step of one run is minded by all of them. -/
theorem Step.minds (step : Step w v) (apart : w.Apart) (h : ∀ run ∈ w.runs, run.Minds w.proofs) :
    ∀ run ∈ v.runs, run.Minds v.proofs := by
  cases step with
  | @begin run fresh =>
    intro other hMem
    rcases List.mem_append.mp hMem with hMem | hMem
    · exact h other hMem
    · obtain rfl := List.mem_singleton.mp hMem
      exact Solving.minds_of_isFresh _ fresh
  | @turn i run c next answer later found pending answers =>
    have hRun := h run (List.mem_of_getElem? found)
    intro other hMem
    obtain ⟨j, foundOther⟩ := List.mem_iff_getElem?.mp hMem
    rcases getElem?_set_cases found foundOther with ⟨-, rfl⟩ | ⟨hIndex, foundOther⟩
    · exact hRun.turn pending answers
    · refine (h other (List.mem_of_getElem? foundOther)).of_other hRun pending answers ?_
      intro token hToken hOther
      exact hIndex (apart j i other run token foundOther found hOther hToken)

theorem Reachable.minds (h : Reachable start w) (apart : w.Apart) :
    ∀ run ∈ w.runs, run.Minds w.proofs := by
  induction h with
  | start =>
    intro run hMem
    cases hMem
  | step _ step ih =>
    have hBefore := step.apart_before apart
    exact step.minds hBefore (ih hBefore)

theorem Reachable.untouched (h : Reachable start w) (apart : w.Apart) {path : String}
    (other : ∀ run ∈ w.runs, run.path? ≠ some path) :
    w.proofs.respond? path = start.respond? path := by
  induction h with
  | start => rfl
  | @step w v h step ih =>
    -- Runs are known to be apart at the end; those that were there before were apart then, too.
    have hBefore := step.apart_before apart
    have hOther : ∀ run ∈ w.runs, run.path? ≠ some path := by
      intro run hMem
      obtain ⟨i, found⟩ := List.mem_iff_getElem?.mp hMem
      obtain ⟨run', found', hKept⟩ := step.token?_kept found
      have hPath := other run' (List.mem_of_getElem? found')
      rwa [Solving.path?, hKept] at hPath
    rw [← ih hBefore hOther]
    cases step with
    | begin fresh => rfl
    | turn found pending answers =>
      have hMem := List.mem_of_getElem? found
      exact (h.minds hBefore _ hMem).respond?_other pending answers (hOther _ hMem)

/-- What the web server shows, and when. -/
structure Available (start : WebProofs) (w : WebServing) : Prop where
  shown : ∀ run ∈ w.runs, run.IsAsking → ∃ token authorization, run.token? = some token ∧
    KeyAuthorization.ofKey token run.key = .ok authorization ∧
    w.proofs.respond? authorization.path = some (token ++ "." ++ run.key.thumbprint) ∧
    authorization.matchesBody (token ++ "." ++ run.key.thumbprint) = true
  gone : ∀ run ∈ w.runs, ∀ result path, run.rest = .done result → run.path? = some path →
    w.proofs.respond? path = none
  /-- A call changes nothing but what is shown under the path of its run. -/
  others : ∀ run ∈ w.runs, ∀ c next answer later, run.rest = .call c next →
    w.proofs.Answers c answer later → ∀ path, run.path? ≠ some path →
    later.respond? path = w.proofs.respond? path
  untouched : ∀ path, (∀ run ∈ w.runs, run.path? ≠ some path) →
    w.proofs.respond? path = start.respond? path

theorem Reachable.available (h : Reachable start w) (apart : w.Apart) : Available start w where
  shown run hMem asking := by
    obtain ⟨task, authorization, hTask, hKey, hAnswer⟩ :=
      (h.minds apart run hMem).answer?_of_isAsking asking
    rw [Solving.key_of_task hTask] at hKey
    have hMatches := KeyAuthorization.matchesBody_value hKey
    refine ⟨task.proof.token, authorization, Solving.token?_of_task hTask, hKey, ?_⟩
    obtain rfl := KeyAuthorization.eq_of_ofKey hKey
    refine ⟨?_, hMatches⟩
    exact (WebProofs.respond?_path _ _).trans hAnswer
  gone run hMem result path done hPath := by
    obtain ⟨token, hToken, rfl⟩ := Option.map_eq_some_iff.mp hPath
    rw [WebProofs.respond?_path]
    exact (h.minds apart run hMem).answer?_of_done done hToken
  others run hMem c next answer later pending answers path other :=
    (h.minds apart run hMem).respond?_other pending answers other
  untouched path other := h.untouched apart other

/-- Two runs show their proofs; one of them has failed and has taken its proof away when the other
has its challenge validated. -/
theorem available_of_one_failure :
    let url : Url := ⟨"https", none, .segments ["challenge"], none, none⟩
    let challenge (token : String) : Challenge := ⟨.http01, .pending, url, some token, none, none⟩
    let key : AccountKey := ⟨.curve .p256 1 (by decide), none⟩
    let solver : Solver := ⟨["http-01-internal"], ⟨2, 20⟩⟩
    let solving (token : String) (rest : Work (Except SolveError ChallengeStatus)) : Solving :=
      ⟨solver, .dns "example.org", [challenge token], .webInternal, key, .staging, rest⟩
    ∃ w rest, Reachable .empty w ∧ w.Apart ∧
      w.runs = [solving "a" rest, solving "b" (.done (.error (.service .directoryFetch)))] ∧
      (solving "a" rest).IsAsking ∧ Available .empty w := by
  intro url challenge key solver solving
  let proof (token : String) : Proof := ⟨.dns "example.org", token, key⟩
  let fresh (token : String) : Work (Except SolveError ChallengeStatus) :=
    solver.solve (.dns "example.org") [challenge token] .webInternal key .staging
  have hCourse (token : String) : ∃ shown asked failed removed,
      fresh token = .call (.provision .webInternal (proof token)) shown ∧
      shown (.ok ()) = .call (.service .staging (.validation url) key) asked ∧
      asked (.error .directoryFetch) = .call (.deprovision .webInternal (proof token)) failed ∧
      failed (.ok ()) = .call (.notify .challengeUnsolved) removed ∧
      removed () = .done (.error (.service .directoryFetch)) :=
    ⟨_, _, _, _, rfl, rfl, rfl, rfl, rfl⟩
  have provided (proofs : WebProofs) (token : String) (hEmpty : token ≠ "")
      (hToken : isToken token = true) :
      ∃ later, proofs.Answers (.provision .webInternal (proof token)) (.ok ()) later :=
    ⟨_, WebProofs.provision_of_isToken hEmpty hToken⟩
  obtain ⟨shownA, askedA, -, -, hFreshA, hShownA, -⟩ := hCourse "a"
  obtain ⟨shownB, askedB, failedB, removedB, hFreshB, hShownB, hFailedB, hRemovedB, hEndB⟩ :=
    hCourse "b"
  obtain ⟨first, hFirst⟩ := provided .empty "a" (by decide) (by decide)
  obtain ⟨second, hSecond⟩ := provided first "b" (by decide) (by decide)
  have turnA {proofs later : WebProofs} {a b : Work (Except SolveError ChallengeStatus)}
      {c : IssuerCall} {next : c.Answer → Work (Except SolveError ChallengeStatus)}
      {answer : c.Answer} (h : Reachable .empty ⟨proofs, [solving "a" a, solving "b" b]⟩)
      (pending : a = .call c next) (answers : proofs.Answers c answer later) :
      Reachable .empty ⟨later, [solving "a" (next answer), solving "b" b]⟩ :=
    h.step (@Step.turn _ 0 (solving "a" a) c next answer later rfl pending answers)
  have turnB {proofs later : WebProofs} {a b : Work (Except SolveError ChallengeStatus)}
      {c : IssuerCall} {next : c.Answer → Work (Except SolveError ChallengeStatus)}
      {answer : c.Answer} (h : Reachable .empty ⟨proofs, [solving "a" a, solving "b" b]⟩)
      (pending : b = .call c next) (answers : proofs.Answers c answer later) :
      Reachable .empty ⟨later, [solving "a" a, solving "b" (next answer)]⟩ :=
    h.step (@Step.turn _ 1 (solving "b" b) c next answer later rfl pending answers)
  have failure : second.Answers (.service .staging (.validation url) key)
      (.error .directoryFetch) second := rfl
  have removal : second.Answers (.deprovision .webInternal (proof "b")) (.ok ())
      (second.deprovision (proof "b")) := ⟨rfl, rfl⟩
  have notice (proofs : WebProofs) : proofs.Answers (.notify .challengeUnsolved) () proofs := rfl
  have begun : Reachable .empty ⟨.empty, [solving "a" (fresh "a"), solving "b" (fresh "b")]⟩ :=
    .step (.step .start (.begin (show (solving "a" (fresh "a")).IsFresh from rfl)))
      (.begin (show (solving "b" (fresh "b")).IsFresh from rfl))
  have shown := turnB (turnA begun hFreshA hFirst) hFreshB hSecond
  have ended := turnB (turnB (turnB shown hShownB failure) hFailedB removal) hRemovedB (notice _)
  rw [hEndB] at ended
  have apart := apart_of_two (second.deprovision (proof "b"))
    (show (solving "a" (shownA (.ok ()))).token? = some "a" from rfl)
    (show (solving "b" (.done (.error (.service .directoryFetch)))).token? = some "b" from rfl)
    (by decide)
  exact ⟨_, _, ended, apart, rfl, ⟨_, congrArg pending? hShownA, .inl rfl⟩, ended.available apart⟩

end WebServing

end Enrollment
