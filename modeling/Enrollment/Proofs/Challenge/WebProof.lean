import Enrollment.Challenge.WebProof
import Enrollment.Proofs.Issuing.SolverTrace
import Enrollment.Proofs.KeyAuthorization
import Enrollment.Proofs.Procedure.State

/-! # What is shown at a token

The solver as seen from the token of its task: its proof is shown before the server is asked
anything, and nothing is shown when it is done.
-/

namespace Enrollment

namespace WebProofs

variable {proofs later : WebProofs} {proof : Proof} {token : String}

theorem respond?_path (proofs : WebProofs) (token : String) :
    proofs.respond? (KeyAuthorization.wellKnownPath ++ token) = proofs.answer? token := by
  rw [respond?, Text.stripStart?_eq_some_iff.mpr rfl, Option.bind_some]

/-- What is shown under a path depends on what is shown at its token only. -/
theorem respond?_congr {path : String} (h : ∀ token,
    path = KeyAuthorization.wellKnownPath ++ token → later.answer? token = proofs.answer? token) :
    later.respond? path = proofs.respond? path := by
  unfold respond?
  cases hStrip : Text.stripStart? KeyAuthorization.wellKnownPath path with
  | none => rfl
  | some token => exact h token (Text.stripStart?_eq_some_iff.mp hStrip)

theorem provision_eq_ok (h : proofs.provision proof = .ok later) :
    ∃ authorization, KeyAuthorization.ofKey proof.token proof.key = .ok authorization ∧
      later = ⟨proofs.answers.put proof.token authorization.value⟩ := by
  unfold provision at h
  split at h
  · cases h
  · next authorization hKey =>
    cases h
    exact ⟨authorization, hKey, rfl⟩

theorem provision_of_isToken (hEmpty : proof.token ≠ "") (hToken : isToken proof.token = true) :
    proofs.provision proof =
      .ok ⟨proofs.answers.put proof.token (proof.token ++ "." ++ proof.key.thumbprint)⟩ := by
  rw [provision, KeyAuthorization.ofKey_of_isToken proof.key hEmpty hToken]
  rfl

/-- Every call that concerns a proof is made to these ones, and any other is answered in any way. -/
def Answers (proofs : WebProofs) : (c : IssuerCall) → c.Answer → WebProofs → Prop
  | .provision _ proof, .ok (), later => proofs.provision proof = .ok later
  | .provision _ proof, .error e, later => proofs.provision proof = .error e ∧ later = proofs
  | .deprovision _ proof, answer, later => answer = .ok () ∧ later = proofs.deprovision proof
  | _, _, later => later = proofs

/-- What is shown at the token of a proof. The calls that may be made are those about this proof,
and the server may be asked while it is shown. -/
def shown (proof : Proof) : Surroundings IssuerCall.Answer (Option String) where
  permits now
    | .provision _ p | .deprovision _ p => p = proof
    | .service _ (.validation _) _ | .service _ (.challenge _) _ =>
      ∃ authorization, KeyAuthorization.ofKey proof.token proof.key = .ok authorization ∧
        now = some authorization.value
    | _ => True
  answers now
    | .provision _ _, .ok (), later =>
      ∃ authorization, KeyAuthorization.ofKey proof.token proof.key = .ok authorization ∧
        later = some authorization.value
    | .deprovision _ _, _, later => later = none
    | _, _, later => later = now

theorem shown_of_permits {c : IssuerCall} {now : Option String}
    (permitted : (shown proof).permits now c)
    (asks : c.solverPart? = some .validation ∨ c.solverPart? = some .reading) :
    ∃ authorization, KeyAuthorization.ofKey proof.token proof.key = .ok authorization ∧
      now = some authorization.value := by
  cases c with
  | service environment request key =>
    cases request with
    | validation | challenge => exact permitted
    | _ => simp [IssuerCall.solverPart?] at asks
  | _ => simp [IssuerCall.solverPart?] at asks

theorem Answers.at_self {c : IssuerCall} {answer : c.Answer} {now : Option String}
    (h : proofs.Answers c answer later) (permitted : (shown proof).permits now c) :
    (shown proof).answers (proofs.answer? proof.token) c answer (later.answer? proof.token) := by
  cases c with
  | provision method p =>
    obtain rfl : p = proof := permitted
    cases answer with
    | ok u =>
      obtain ⟨authorization, hKey, rfl⟩ := provision_eq_ok h
      exact ⟨authorization, hKey, Keyed.get?_put_self _ _ _⟩
    | error e =>
      obtain ⟨-, rfl⟩ := h
      rfl
  | deprovision method p =>
    obtain rfl : p = proof := permitted
    obtain ⟨-, rfl⟩ := h
    exact Keyed.get?_erase_self _ _
  | service | store | wait | clock | notify | start | join | enqueue =>
    obtain rfl := h
    rfl

theorem Answers.at_other {c : IssuerCall} {answer : c.Answer} {now : Option String}
    (h : proofs.Answers c answer later) (permitted : (shown proof).permits now c)
    (other : token ≠ proof.token) : later.answer? token = proofs.answer? token := by
  cases c with
  | provision method p =>
    obtain rfl : p = proof := permitted
    cases answer with
    | ok u =>
      obtain ⟨authorization, -, rfl⟩ := provision_eq_ok h
      exact Keyed.get?_put_of_ne _ _ other
    | error e =>
      obtain ⟨-, rfl⟩ := h
      rfl
  | deprovision method p =>
    obtain rfl : p = proof := permitted
    obtain ⟨-, rfl⟩ := h
    exact Keyed.get?_erase_of_ne _ other
  | service | store | wait | clock | notify | start | join | enqueue =>
    obtain rfl := h
    rfl

end WebProofs

namespace Solver

open Procedure WebProofs

variable (solver : Solver) (task : SolverTask)

theorem poll_upholds {authorization : KeyAuthorization}
    (hKey : KeyAuthorization.ofKey task.proof.token task.proof.key = .ok authorization)
    (attempts : Nat) : (solver.poll task attempts).run.Upholds (shown task.proof)
      (fun _ _ => True) (some authorization.value) := by
  induction attempts with
  | zero => trivial
  | succ attempts ih =>
    refine ⟨trivial, ?_⟩
    rintro waited _ rfl
    cases waited with
    | shutdown => trivial
    | elapsed =>
      refine ⟨⟨authorization, hKey, rfl⟩, ?_⟩
      rintro answer _ rfl
      cases answer with
      | error e => trivial
      | ok current =>
        show Upholds _ _ _ (ExceptT.run (if isSettled current.status then
          return current.status else solver.poll task attempts))
        split
        · trivial
        · exact ih

theorem provisionAndPoll_upholds (now : Option String) :
    (solver.provisionAndPoll task).run.Upholds (shown task.proof) (fun _ _ => True) now := by
  refine ⟨rfl, ?_⟩
  intro answer later hShown
  cases answer with
  | error e => trivial
  | ok u =>
    obtain ⟨authorization, hKey, rfl⟩ := hShown
    refine ⟨⟨authorization, hKey, rfl⟩, ?_⟩
    rintro answer _ rfl
    cases answer with
    | error e => trivial
    | ok started => exact solver.poll_upholds task hKey _

theorem takeAway_upholds (now : Option String) :
    (takeAway task).Upholds (shown task.proof) (fun later _ => later = none) now := by
  refine ⟨rfl, ?_⟩
  rintro answer _ rfl
  cases answer with
  | ok u => rfl
  | error e =>
    refine ⟨trivial, ?_⟩
    rintro _ _ rfl
    rfl

/-- Whatever was shown at the token before, nothing is when the solver is done. -/
theorem solveTask_upholds (now : Option String) :
    (solver.solveTask task).Upholds (shown task.proof) (fun later _ => later = none) now := by
  refine Upholds.bind (solver.provisionAndPoll_upholds task now) ?_
  intro later outcome _
  refine Upholds.bind (takeAway_upholds task later) ?_
  rintro _ _ rfl
  cases outcome with
  | ok status => rfl
  | error e =>
    refine ⟨trivial, ?_⟩
    rintro _ _ rfl
    rfl

end Solver

end Enrollment
