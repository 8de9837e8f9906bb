import Enrollment.Proofs.Challenge.WebProof
import Enrollment.Proofs.Issuing.SolverDiscipline

/-! # What accepted challenges are good for

A challenge that was accepted with its document has a secure address, and a token if its kind is a
known one. A token that is not empty makes a key authorization, so that a solver which shows its
proofs on the web comes to grief over a token only if it is empty.
-/

namespace Enrollment

def ChallengeKind.IsKnown (kind : ChallengeKind) : Prop :=
  kind = .http01 ∨ kind = .dns01 ∨ kind = .tlsAlpn01

theorem ChallengeKind.needsToken_iff {kind : ChallengeKind} :
    kind.needsToken = true ↔ kind.IsKnown := by
  cases kind <;> simp [needsToken, IsKnown]

namespace KeyAuthorization

variable {token : String}

/-- Of the tokens in the right alphabet only the empty one makes no key authorization. -/
theorem ofThumbprint_of_isToken (h : isToken token = true) (thumbprint : String) :
    ofThumbprint token thumbprint =
      if token = "" then .error .emptyToken else .ok ⟨token, thumbprint⟩ := by
  rw [ofThumbprint, if_pos h]

end KeyAuthorization

namespace WebProofs

variable {proofs later : WebProofs} {proof : Proof}

theorem provision_eq_error_iff (h : isToken proof.token = true) {e : ProviderError} :
    proofs.provision proof = .error e ↔
      proof.token = "" ∧ e = .keyAuthorization .emptyToken := by
  by_cases hEmpty : proof.token = ""
  · have hKey : KeyAuthorization.ofKey proof.token proof.key = .error .emptyToken := by
      rw [KeyAuthorization.ofKey, KeyAuthorization.ofThumbprint_of_isToken h, if_pos hEmpty]
    rw [provision, hKey]
    simp [hEmpty, eq_comm]
  · rw [provision_of_isToken hEmpty h]
    simp [hEmpty]

/-- What a proof with a token in the right alphabet is answered. -/
theorem Answers.of_isToken {method : ChallengeMethod} {answer : Except ProviderError Unit}
    (h : proofs.Answers (.provision method proof) answer later)
    (hToken : isToken proof.token = true) :
    answer = if proof.token = "" then .error (.keyAuthorization .emptyToken) else .ok () := by
  cases answer with
  | ok u =>
    have hProvision : proofs.provision proof = .ok later := h
    rw [if_neg]
    intro hEmpty
    rw [(provision_eq_error_iff hToken).mpr ⟨hEmpty, rfl⟩] at hProvision
    cases hProvision
  | error e =>
    obtain ⟨hEmpty, rfl⟩ := (provision_eq_error_iff hToken).mp h.1
    rw [if_pos hEmpty]

end WebProofs

namespace Challenge

/-- What can be done with a challenge. -/
structure Usable (challenge : Challenge) : Prop where
  secure : challenge.url.scheme = "https"
  carries : challenge.kind.IsKnown → ∃ token, challenge.token = some token
  authorizes : ∀ token, challenge.token = some token → ∀ thumbprint,
    KeyAuthorization.ofThumbprint token thumbprint =
      if token = "" then .error .emptyToken else .ok ⟨token, thumbprint⟩
  provisions : ∀ token, challenge.token = some token → ∀ (proofs : WebProofs) identifier key,
    (∃ later, proofs.provision ⟨identifier, token, key⟩ = .ok later) ↔ token ≠ ""

variable {challenge accepted : Challenge} {bytes : Bytes}

theorem accept_eq_ok_iff : challenge.accept = .ok accepted ↔
    accepted = challenge ∧ challenge.url.scheme = "https" ∧
      (challenge.kind.IsKnown → ∃ token, challenge.token = some token) ∧
      ∀ token, challenge.token = some token → isToken token = true := by
  rw [← ChallengeKind.needsToken_iff, accept]
  by_cases hSecure : challenge.url.scheme = "https"
  · rw [if_neg (not_not_intro hSecure)]
    cases hToken : challenge.token with
    | none =>
      cases hKind : challenge.kind.needsToken <;> simp [hSecure, @eq_comm _ accepted]
    | some token =>
      by_cases hAlphabet : isToken token = true
      · simp [hSecure, hAlphabet, @eq_comm _ accepted]
      · simp [hAlphabet]
  · simp [hSecure]

theorem usable_of_accept (h : challenge.accept = .ok accepted) : accepted.Usable := by
  obtain ⟨rfl, hSecure, hCarries, hAlphabet⟩ := accept_eq_ok_iff.mp h
  refine ⟨hSecure, hCarries, ?_, ?_⟩
  · intro token hToken
    exact KeyAuthorization.ofThumbprint_of_isToken (hAlphabet token hToken)
  · intro token hToken proofs identifier key
    constructor
    · rintro ⟨later, hLater⟩ hEmpty
      rw [(WebProofs.provision_eq_error_iff (hAlphabet token hToken)).mpr ⟨hEmpty, rfl⟩] at hLater
      cases hLater
    · intro hEmpty
      exact ⟨_, WebProofs.provision_of_isToken hEmpty (hAlphabet token hToken)⟩

theorem usable_of_ofBytes (h : ofBytes bytes = .ok challenge) : challenge.Usable := by
  unfold ofBytes at h
  split at h
  · exact usable_of_accept h
  · cases h

/-- A challenge that is usable has a token in the right alphabet, if it has any. -/
theorem Usable.isToken (h : challenge.Usable) {token : String}
    (hToken : challenge.token = some token) : Enrollment.isToken token = true := by
  by_cases hEmpty : token = ""
  · rw [hEmpty]
    rfl
  · have hAuthorizes := h.authorizes token hToken ""
    rw [if_neg hEmpty, KeyAuthorization.ofThumbprint, if_neg hEmpty] at hAuthorizes
    split at hAuthorizes
    · assumption
    · cases hAuthorizes

end Challenge

namespace Authorization

variable {index : Nat} {challenges accepted : List Challenge} {authorization : Authorization}
  {bytes : Bytes}

theorem acceptChallenges_eq_ok (h : acceptChallenges index challenges = .ok accepted) :
    ∀ challenge ∈ accepted, challenge.Usable := by
  induction challenges generalizing index accepted with
  | nil =>
    cases h
    simp
  | cons challenge challenges ih =>
    rw [acceptChallenges] at h
    split at h
    · cases h
    · next first hFirst =>
      cases hRest : acceptChallenges (index + 1) challenges with
      | error e =>
        rw [hRest] at h
        cases h
      | ok rest =>
        rw [hRest] at h
        cases h
        exact List.forall_mem_cons.mpr ⟨Challenge.usable_of_accept hFirst, ih hRest⟩

theorem usable_of_ofBytes (h : ofBytes bytes = .ok authorization) :
    ∀ challenge ∈ authorization.challenges, challenge.Usable := by
  unfold ofBytes at h
  split at h
  · next written hWritten =>
    unfold accept at h
    split at h
    · cases h
    · cases hAccepted : acceptChallenges 0 written.challenges with
      | error e =>
        rw [hAccepted] at h
        cases h
      | ok accepted =>
        rw [hAccepted] at h
        cases h
        exact acceptChallenges_eq_ok hAccepted
  · cases h

end Authorization

theorem Turn.decision?_eq_provision {turn : Turn IssuerCall.Answer} {e : ProviderError}
    (h : turn.decision? = some (.error (.provision e))) :
    ∃ method proof, turn = ⟨.provision method proof, .error e⟩ := by
  unfold decision? at h
  split at h
  case h_1 method proof e' =>
    cases h
    exact ⟨method, proof, rfl⟩
  case h_4 => split at h <;> cases h
  all_goals cases h

theorem Turn.decision?_ne_missingToken (turn : Turn IssuerCall.Answer) :
    turn.decision? ≠ some (.error .missingToken) := by
  intro h
  unfold decision? at h
  split at h
  case h_4 => split at h <;> cases h
  all_goals cases h

namespace Solver

open Procedure

/-- Whether the calls about proofs are answered by a web server, whatever it shows at each time. -/
def ServedOnWeb (trace : Trace) : Prop :=
  ∀ turn ∈ trace, ∃ proofs later : WebProofs, proofs.Answers turn.call turn.answer later

variable {solver : Solver} {task : SolverTask} {shown : Trace}
  {result : Except SolveError ChallengeStatus}

theorem Handled.ne_missingToken (h : solver.Handled task shown result) :
    result ≠ .error .missingToken := by
  intro hMissing
  have hDecided := h.decided
  cases hDecision : shown.findSome? Turn.decision? with
  | none => simp [hDecision, hMissing] at hDecided
  | some decision =>
    obtain ⟨turn, -, hTurn⟩ := List.exists_of_findSome?_eq_some hDecision
    rw [hDecision, hMissing] at hDecided
    exact turn.decision?_ne_missingToken (hTurn.trans (congrArg some hDecided.symm))

/-- A provider that refuses to show a proof decides what comes of it, and nothing else is taken for
its refusal. -/
theorem Handled.refused_iff (h : solver.Handled task shown result) {e : ProviderError} :
    result = .error (.provision e) ↔ task.provisioned (.error e) ∈ shown := by
  obtain ⟨answer, later, hShown, hNone⟩ := h.provisions
  constructor
  · intro hResult
    have hDecided := h.decided
    cases hDecision : shown.findSome? Turn.decision? with
    | none => simp [hDecision, hResult] at hDecided
    | some decision =>
      obtain ⟨turn, hMem, hTurn⟩ := List.exists_of_findSome?_eq_some hDecision
      rw [hDecision, hResult] at hDecided
      obtain rfl : .error (.provision e) = decision := hDecided
      obtain ⟨method, proof, rfl⟩ := Turn.decision?_eq_provision hTurn
      have hOwn := h.own _ hMem
      simp only [calls, List.mem_cons, List.not_mem_nil, or_false, IssuerCall.provision.injEq,
        reduceCtorEq] at hOwn
      obtain ⟨rfl, rfl⟩ := hOwn
      exact hMem
  · intro hMem
    have hHead : task.provisioned (.error e) = task.provisioned answer := by
      rw [hShown] at hMem
      rcases List.mem_cons.mp hMem with hHead | hLater
      · exact hHead
      · exact absurd (decide_eq_true rfl) (List.countP_eq_zero.mp hNone _ hLater)
    rw [h.decided, hShown, ← hHead]
    rfl

theorem Handled.provisioned_of_served (h : solver.Handled task shown result)
    (served : ServedOnWeb shown) (hToken : isToken task.proof.token = true) :
    task.provisioned (if task.proof.token = "" then .error (.keyAuthorization .emptyToken)
      else .ok ()) ∈ shown := by
  obtain ⟨answer, later, rfl, -⟩ := h.provisions
  obtain ⟨proofs, after, hAnswers⟩ := served _ List.mem_cons_self
  rw [← hAnswers.of_isToken hToken]
  exact List.mem_cons_self

theorem Handled.refused_of_served (h : solver.Handled task shown result)
    (served : ServedOnWeb shown) (hToken : isToken task.proof.token = true)
    (cause : KeyAuthorizationError) : result = .error (.provision (.keyAuthorization cause)) ↔
      cause = .emptyToken ∧ task.proof.token = "" := by
  have hProvisioned := h.provisioned_of_served served hToken
  rw [h.refused_iff]
  constructor
  · intro hMem
    obtain ⟨proofs, after, hAnswers⟩ := served _ hMem
    obtain ⟨hEmpty, hCause⟩ := (WebProofs.provision_eq_error_iff hToken).mp hAnswers.1
    cases hCause
    exact ⟨rfl, hEmpty⟩
  · rintro ⟨rfl, hEmpty⟩
    rwa [if_pos hEmpty] at hProvisioned

variable {identifier : Identifier} {challenges : List Challenge} {method : ChallengeMethod}
  {key : AccountKey} {environment : Environment} {trace : Trace}

/-- What a solver on the web comes to over usable challenges: tokens are there, and the only one
that is refused is the empty one. -/
theorem refused_iff_of_usable (usable : ∀ challenge ∈ challenges, challenge.Usable)
    (known : method.kind.IsKnown)
    (run : Runs (solver.solve identifier challenges method key environment) trace result)
    (served : ServedOnWeb trace) :
    result ≠ .error .missingToken ∧
      ∀ cause, result = .error (.provision (.keyAuthorization cause)) ↔
        cause = .emptyToken ∧ method.id ∈ solver.methods ∧
          ∃ challenge : Challenge, challenge.IsLast method.kind challenges ∧
            challenge.token = some "" := by
  have disciplined := solver.disciplined_of_runs identifier challenges method key environment run
  cases hLast : lastOf? method.kind challenges with
  | none =>
    obtain ⟨-, rfl⟩ := disciplined.noChallenge ((lastOf?_eq_none_iff challenges).mp hLast)
    refine ⟨by simp, fun cause => ⟨by simp, ?_⟩⟩
    rintro ⟨-, -, challenge, hIsLast, -⟩
    rw [(lastOf?_eq_some_iff challenges).mpr hIsLast] at hLast
    cases hLast
  | some challenge =>
    have hIsLast := (lastOf?_eq_some_iff challenges).mp hLast
    have hMem : challenge ∈ challenges := by
      obtain ⟨-, before, after, rfl, -⟩ := hIsLast
      simp
    obtain ⟨token, hToken⟩ := (usable challenge hMem).carries (hIsLast.1 ▸ known)
    -- The last challenge is the only one of which it can be said that it is the last.
    have hEmpty : (∃ other : Challenge, other.IsLast method.kind challenges ∧
        other.token = some "") ↔ token = "" := by
      constructor
      · rintro ⟨other, hOther, hOtherToken⟩
        rw [(lastOf?_eq_some_iff challenges).mpr hOther] at hLast
        cases hLast
        exact Option.some.inj (hToken.symm.trans hOtherToken)
      · rintro rfl
        exact ⟨challenge, hIsLast, hToken⟩
    by_cases hMethod : method.id ∈ solver.methods
    · obtain ⟨shown, answer, notices, rfl, -, handled, -⟩ :=
        disciplined.handled challenge token hIsLast hToken hMethod
      have servedShown : ServedOnWeb shown := fun turn hTurn =>
        served turn (List.mem_append_left _ hTurn)
      refine ⟨handled.ne_missingToken, fun cause => ?_⟩
      rw [handled.refused_of_served servedShown ((usable challenge hMem).isToken hToken) cause,
        hEmpty]
      simp [hMethod]
    · obtain ⟨-, rfl⟩ := disciplined.noProvider challenge token hIsLast hToken hMethod
      simp [hMethod]

/-- The challenges that are accepted are usable, and what a solver makes of them on the web. -/
theorem accepted_usable (bytes : Bytes) :
    (∀ challenge, Challenge.ofBytes bytes = .ok challenge → challenge.Usable) ∧
      ∀ authorization, Authorization.ofBytes bytes = .ok authorization →
        (∀ challenge ∈ authorization.challenges, challenge.Usable) ∧
        ∀ (solver : Solver) identifier method key environment trace result,
          method.kind.IsKnown →
          Runs (solver.solve identifier authorization.challenges method key environment) trace
            result →
          ServedOnWeb trace →
          result ≠ .error .missingToken ∧
            ∀ cause, result = .error (.provision (.keyAuthorization cause)) ↔
              cause = .emptyToken ∧ method.id ∈ solver.methods ∧
                ∃ challenge : Challenge,
                  challenge.IsLast method.kind authorization.challenges ∧
                    challenge.token = some "" := by
  refine ⟨fun challenge => Challenge.usable_of_ofBytes, fun authorization h => ?_⟩
  have usable := Authorization.usable_of_ofBytes h
  refine ⟨usable, ?_⟩
  intro solver identifier method key environment trace result known run served
  exact refused_iff_of_usable usable known run served

section

/-- An authorization for `a.com` with one challenge over the web. -/
def offering (token : String) : Bytes :=
  Utf8.encode ("\x7b\"identifier\":\x7b\"type\":\"dns\",\"value\":\"a.com\"\x7d," ++
    "\"status\":\"pending\",\"challenges\":[\x7b\"type\":\"http-01\",\"status\":\"pending\"," ++
    "\"url\":\"https://a/c\",\"token\":\"" ++ token ++ "\"\x7d]\x7d")

def offered? (bytes : Bytes) : Option (List (ChallengeKind × Option String)) :=
  match Authorization.ofBytes bytes with
  | .ok authorization => some (authorization.challenges.map fun c => (c.kind, c.token))
  | .error _ => none

def webSolver : Solver := ⟨["http-01-internal"], ⟨2, 20⟩⟩

theorem isScalar_one : Curve.p256.isScalar 1 = true := by decide

def webKey : AccountKey := ⟨.curve .p256 1 isScalar_one, none⟩

def webTask (challenge : Challenge) (token : String) : SolverTask :=
  ⟨challenge, .webInternal, ⟨.dns "a.com", token, webKey⟩, .staging⟩

def webSolving (authorization : Authorization) : Work (Except SolveError ChallengeStatus) :=
  webSolver.solve (.dns "a.com") authorization.challenges .webInternal webKey .staging

theorem exists_of_offered {bytes : Bytes} {token : String}
    (h : offered? bytes = some [(.http01, some token)]) :
    ∃ authorization challenge, Authorization.ofBytes bytes = .ok authorization ∧
      authorization.challenges = [challenge] ∧ challenge.kind = .http01 ∧
      challenge.token = some token ∧
      webSolving authorization = webSolver.solveTask (webTask challenge token) := by
  unfold offered? at h
  split at h
  · next authorization hAccepted =>
    obtain ⟨challenge, hChallenges, hChallenge⟩ := List.map_eq_singleton_iff.mp (Option.some.inj h)
    obtain ⟨hKind, hToken⟩ := Prod.mk.inj hChallenge
    refine ⟨authorization, challenge, hAccepted, hChallenges, hKind, hToken, ?_⟩
    simp [webSolving, solve, select, lastOf?, hChallenges, hKind, hToken,
      ChallengeMethod.webInternal, webSolver, webTask]
  · cases h

variable {challenge : Challenge} {token : String}

theorem served_deprovisioned (result : Except SolveError ChallengeStatus) :
    ServedOnWeb ((webTask challenge token).deprovisioned (.ok ()) ::
      (kept (.ok ()) ++ unsolved result)) := by
  refine List.forall_mem_cons.mpr ⟨⟨.empty, _, rfl, rfl⟩, ?_⟩
  cases result with
  | ok status => simp [kept, unsolved]
  | error e => exact List.forall_mem_cons.mpr ⟨⟨.empty, .empty, rfl⟩, by simp⟩

/-- The server does not come to validate the challenge, for it cannot be reached. -/
theorem usable_of_one_challenge :
    ∃ authorization trace result, Authorization.ofBytes (offering "a-_9") = .ok authorization ∧
      ChallengeMethod.webInternal.kind.IsKnown ∧ Runs (webSolving authorization) trace result ∧
      ServedOnWeb trace ∧ result ≠ .error .missingToken ∧
      ∀ cause, result ≠ .error (.provision (.keyAuthorization cause)) := by
  have hOffered : offered? (offering "a-_9") = some [(.http01, some "a-_9")] := by decide +kernel
  obtain ⟨authorization, challenge, hAccepted, hChallenges, -, hToken, hSolving⟩ :=
    exists_of_offered hOffered
  let task := webTask challenge "a-_9"
  let shown := [task.provisioned (.ok ()), task.validated (.error .directoryFetch)]
  have hShown : Runs (webSolver.provisionAndPoll task).run shown
      (.error (.service .directoryFetch)) := .turn _ (.turn _ (.here _))
  have run := runs_solveTask_iff.mpr ⟨shown, .ok (), rfl, hShown⟩
  rw [← hSolving] at run
  have hProvision : ServedOnWeb shown := by
    have hEmpty : "a-_9" ≠ "" := by decide
    have hAlphabet : isToken "a-_9" = true := by decide
    obtain ⟨later, hLater⟩ : ∃ later, WebProofs.empty.provision task.proof = .ok later :=
      ⟨_, WebProofs.provision_of_isToken hEmpty hAlphabet⟩
    exact List.forall_mem_cons.mpr ⟨⟨.empty, later, hLater⟩,
      List.forall_mem_cons.mpr ⟨⟨.empty, .empty, rfl⟩, by simp⟩⟩
  have served : ServedOnWeb (shown ++ task.deprovisioned (.ok ()) :: _) :=
    List.forall_mem_append.mpr
      ⟨hProvision, served_deprovisioned (.error (.service .directoryFetch))⟩
  obtain ⟨-, solves⟩ := (accepted_usable (offering "a-_9")).2 _ hAccepted
  obtain ⟨hMissing, hRefused⟩ := solves webSolver _ .webInternal _ _ _ _ (.inl rfl) run served
  refine ⟨authorization, _, _, hAccepted, .inl rfl, run, served, hMissing, ?_⟩
  intro cause hResult
  obtain ⟨-, -, other, hLast, hEmpty⟩ := (hRefused cause).mp hResult
  rw [hChallenges] at hLast
  obtain ⟨-, before, after, hOnly, -⟩ := hLast
  obtain rfl : other = challenge := by
    have hMem : other ∈ [challenge] := hOnly ▸ List.mem_append_right before List.mem_cons_self
    exact List.mem_singleton.mp hMem
  exact absurd (hToken.symm.trans hEmpty) (by decide)

/-- A document with an empty token is accepted, but no proof can be shown for it. -/
theorem unusable_of_empty_token :
    ∃ authorization challenge trace,
      Authorization.ofBytes (offering "") = .ok authorization ∧
      authorization.challenges = [challenge] ∧ challenge.kind = .http01 ∧
      challenge.token = some "" ∧
      (∀ thumbprint, KeyAuthorization.ofThumbprint "" thumbprint = .error .emptyToken) ∧
      ServedOnWeb trace ∧ Runs (webSolving authorization) trace
        (.error (.provision (.keyAuthorization .emptyToken))) := by
  have hOffered : offered? (offering "") = some [(.http01, some "")] := by decide +kernel
  obtain ⟨authorization, challenge, hAccepted, hChallenges, hKind, hToken, hSolving⟩ :=
    exists_of_offered hOffered
  let task := webTask challenge ""
  let shown := [task.provisioned (.error (.keyAuthorization .emptyToken))]
  have hShown : Runs (webSolver.provisionAndPoll task).run shown
      (.error (.provision (.keyAuthorization .emptyToken))) := .turn _ (.here _)
  have run := runs_solveTask_iff.mpr ⟨shown, .ok (), rfl, hShown⟩
  rw [← hSolving] at run
  have hProvision : ServedOnWeb shown := List.forall_mem_cons.mpr
    ⟨⟨.empty, .empty, (WebProofs.provision_eq_error_iff rfl).mpr ⟨rfl, rfl⟩, rfl⟩, by simp⟩
  exact ⟨authorization, challenge, _, hAccepted, hChallenges, hKind, hToken, fun _ => rfl,
    List.forall_mem_append.mpr ⟨hProvision, served_deprovisioned _⟩, run⟩

end

end Solver

end Enrollment
