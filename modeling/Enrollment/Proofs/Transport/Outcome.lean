import Enrollment.Proofs.Transport.Retry

/-! # How a signed request ends

A response that does not reject the nonce of its request ends the request, with a result that its
status, its announcement and its body decide. What becomes of the nonce that comes with it makes no
difference.
-/

namespace Enrollment.Transport

open Procedure Exchange ReplayNonce

variable {newNonce : Url} {request : Request} {response other : Http.Response} {before : Trace}
  {url : Url} {envelope : Envelope}
  {next : Http.Reply → Talk (Except TransportError Http.Response)}

/-- The problem that the body of a response states, where it is taken for one: it is announced, or
the response is no success. -/
def States (response : Http.Response) (problem : Problem) : Prop :=
  (response.status.isSuccess = false ∨ Problem.isAnnounced response.headers = true) ∧
    Problem.reader.run response.body = .ok problem

def RejectsNonce (response : Http.Response) : Prop :=
  ∃ problem, States response problem ∧ problem.shortType = "badNonce"

/-- How a response ends a request. -/
structure Outcome (response : Http.Response) (result : Except TransportError Http.Response) :
    Prop where
  problem : ∀ problem, result = .error (.problem problem) ↔ ∃ stated, States response stated ∧
    problem = stated.withStatus (stated.status.getD response.status.code)
  unexpected : ∀ status body, result = .error (.unexpectedStatus status body) ↔
    (response.status.isSuccess = false ∧
      ∀ problem, Problem.reader.run response.body ≠ .ok problem) ∧
    status = response.status ∧ body = Utf8.decodeLossy response.body
  answered : ∀ answer, result = .ok answer ↔
    (response.status.isSuccess = true ∧ ∀ problem, ¬States response problem) ∧ answer = response

def isNonceField (field : String × Bytes) : Bool := Text.lower field.1 = Text.lower header

/-- Two responses that differ in nothing but their nonces. -/
structure Renonced (response other : Http.Response) : Prop where
  status : other.status = response.status
  body : other.body = response.body
  headers : other.headers.filter (!isNonceField ·) = response.headers.filter (!isNonceField ·)

/-- The same error, or answers with the same status and the same body. -/
inductive Alike : Except TransportError Http.Response → Except TransportError Http.Response → Prop
  where
  | failed (e : TransportError) : Alike (.error e) (.error e)
  | answered {response other : Http.Response} (hStatus : other.status = response.status)
    (hBody : other.body = response.body) : Alike (.ok response) (.ok other)

/-- The problem that a response is taken to carry. -/
def problem? (response : Http.Response) : Option Problem :=
  Problem.ofResponse? response.status response.headers response.body

theorem problem?_eq_some_iff {problem : Problem} : problem? response = some problem ↔
    ∃ stated, States response stated ∧
      problem = stated.withStatus (stated.status.getD response.status.code) := by
  unfold problem? Problem.ofResponse? States
  constructor
  · intro h
    split at h
    · next hTaken =>
      split at h
      · next stated hBody =>
        cases h
        exact ⟨stated, ⟨by simpa [or_comm] using hTaken, hBody⟩, rfl⟩
      · cases h
    · cases h
  · rintro ⟨stated, ⟨hTaken, hBody⟩, rfl⟩
    rw [if_pos (by simpa [or_comm] using hTaken), hBody]
    rfl

theorem problem?_eq_none_iff : problem? response = none ↔ ∀ problem, ¬States response problem := by
  rw [Option.eq_none_iff_forall_ne_some]
  constructor
  · intro h stated hStates
    exact h _ (problem?_eq_some_iff.mpr ⟨stated, hStates, rfl⟩)
  · intro h problem hProblem
    obtain ⟨stated, hStates, -⟩ := problem?_eq_some_iff.mp hProblem
    exact h stated hStates

theorem not_rejectsNonce_iff : ¬RejectsNonce response ↔ rejection? response = none := by
  rw [Option.eq_none_iff_forall_ne_some]
  simp only [rejection?, ne_eq, Option.filter_eq_some_iff]
  constructor
  · rintro h problem ⟨hProblem, hType⟩
    obtain ⟨stated, hStates, rfl⟩ := problem?_eq_some_iff.mp hProblem
    exact h ⟨stated, hStates, of_decide_eq_true hType⟩
  · rintro h ⟨stated, hStates, hType⟩
    exact h _ ⟨problem?_eq_some_iff.mpr ⟨stated, hStates, rfl⟩, decide_eq_true hType⟩

/-- A response that is no success states a problem exactly if its body is one. -/
theorem states_iff_of_failure {problem : Problem} (h : response.status.isSuccess = false) :
    States response problem ↔ Problem.reader.run response.body = .ok problem :=
  and_iff_right (.inl h)

theorem outcome_ending : Outcome response (ending response (problem? response)) := by
  cases hProblem : problem? response with
  | some problem =>
    obtain ⟨stated, hStates, hStated⟩ := problem?_eq_some_iff.mp hProblem
    refine ⟨fun given => ?_, fun status body => ?_, fun answer => ?_⟩
    · rw [← problem?_eq_some_iff, hProblem, ending]
      simp
    · exact iff_of_false nofun fun h => h.1.2 stated hStates.2
    · exact iff_of_false nofun fun h => h.1.2 stated hStates
  | none =>
    have hNone := problem?_eq_none_iff.mp hProblem
    cases hSuccess : response.status.isSuccess with
    | true =>
      rw [ending, if_pos hSuccess]
      refine ⟨fun given => ?_, fun status body => ?_, fun answer => ?_⟩
      · refine iff_of_false nofun ?_
        rintro ⟨stated, hStates, -⟩
        exact hNone stated hStates
      · exact iff_of_false nofun fun h => Bool.noConfusion (hSuccess.symm.trans h.1.1)
      · simp [hSuccess, hNone, eq_comm]
    | false =>
      rw [ending, if_neg (by simp [hSuccess])]
      refine ⟨fun given => ?_, fun status body => ?_, fun answer => ?_⟩
      · refine iff_of_false nofun ?_
        rintro ⟨stated, hStates, -⟩
        exact hNone stated hStates
      · simp only [states_iff_of_failure hSuccess] at hNone
        simp [hSuccess, hNone, eq_comm]
      · exact iff_of_false nofun fun h => Bool.noConfusion (hSuccess.symm.trans h.1.1)

theorem get?_filter {headers : Http.Headers} {name : String}
    (hName : Text.lower name ≠ Text.lower header) :
    Http.Headers.get? (headers.filter (!isNonceField ·)) name = headers.get? name := by
  unfold Http.Headers.get?
  rw [List.find?_filter]
  congr 2
  funext field
  by_cases hField : Text.lower field.1 = Text.lower name
  · have hOther : isNonceField field = false := decide_eq_false (hField ▸ hName)
    simp [hField, hOther]
  · simp [hField]

theorem Renonced.isAnnounced (h : Renonced response other) :
    Problem.isAnnounced other.headers = Problem.isAnnounced response.headers := by
  have hName : Text.lower "content-type" ≠ Text.lower header := by decide
  rw [Problem.isAnnounced, Problem.isAnnounced, Http.Headers.text?, Http.Headers.text?,
    ← get?_filter hName, h.headers, get?_filter hName]

theorem Renonced.problem?_eq (h : Renonced response other) :
    problem? other = problem? response := by
  unfold problem? Problem.ofResponse?
  rw [h.isAnnounced, h.status, h.body]

theorem Renonced.alike (h : Renonced response other) :
    Alike (ending response (problem? response))
      (ending other (problem? other)) := by
  rw [h.problem?_eq]
  cases problem? response with
  | some problem => exact .failed _
  | none =>
    rw [ending, ending, h.status, h.body]
    split
    · exact .answered h.status h.body
    · exact .failed _

/-- An answer to each call, for a run to exist. -/
def anyAnswer : (c : Exchange) → c.Answer
  | .head _ | .get _ | .post _ _ => .error ⟨⟩
  | .takeNonce => none
  | .keepNonce _ | .warn _ => ()

/-- A response that does not reject the nonce ends the request when its own nonce is seen to. -/
theorem runs_answered_iff {after : Trace} {result : Except TransportError Http.Response}
    (h : Leads (postRequest newNonce request) before (.call (.post url envelope) next))
    (hNone : rejection? response = none) : Runs (next (.ok response)) after result ↔
      after = absorbed response.headers ∧ result = ending response (problem? response) := by
  have hOnly (after : Trace) (result : Except TransportError Http.Response)
      (run : Runs (next (.ok response)) after result) :
      after = absorbed response.headers ∧ result = ending response (problem? response) := by
    have resent := runs_sendAgain_iff.mp (h.trans (.turn _ run))
    obtain ⟨rfl, -⟩ := resent.protocol.warranted _ _ _ _ _ rfl
    have hFollowed := resent.protocol.followed _ envelope _ _ rfl
    cases hFollowed with
    | answered => exact ⟨rfl, rfl⟩
    | spent _ hSome | undrawn _ hSome | unsigned _ hSome | again _ hSome =>
      cases hNone.symm.trans hSome
  refine ⟨hOnly after result, ?_⟩
  rintro ⟨rfl, rfl⟩
  obtain ⟨after, result, run, -⟩ := exists_runs (fun _ => anyAnswer) [] (next (.ok response))
  obtain ⟨rfl, rfl⟩ := hOnly after result run
  exact run

/-- Wherever a signed request has come to, a response to it that does not reject its nonce ends it,
as the response alone says. Whatever nonces the response came with, the request would have ended
alike. -/
theorem postRequest_outcome
    (h : Leads (postRequest newNonce request) before (.call (.post url envelope) next))
    (hResponse : ¬RejectsNonce response) :
    ∃ result, Outcome response result ∧
      (∀ after given, Runs (next (.ok response)) after given ↔
        after = absorbed response.headers ∧ given = result) ∧
      ∀ other, Renonced response other →
        ∃ otherResult, Alike result otherResult ∧
          ∀ after given, Runs (next (.ok other)) after given ↔
            after = absorbed other.headers ∧ given = otherResult := by
  have hNone := not_rejectsNonce_iff.mp hResponse
  refine ⟨ending response (problem? response), outcome_ending, ?_, ?_⟩
  · intro after given
    exact runs_answered_iff h hNone
  · intro other hOther
    have hNoneOther : rejection? other = none := by
      rw [rejection?, ← problem?, hOther.problem?_eq]
      exact hNone
    refine ⟨ending other (problem? other), hOther.alike, ?_⟩
    intro after given
    exact runs_answered_iff h hNoneOther

/-- A refusal that comes with a nonce. -/
def refusal (nonce : String) : Http.Response :=
  ⟨⟨400⟩, [("replay-nonce", Utf8.encode nonce)],
    Utf8.encode "\x7b\"type\":\"urn:ietf:params:acme:error:rejectedIdentifier\"\x7d"⟩

theorem renonced_refusal : Renonced (refusal "AQ") (refusal "no nonce") := ⟨rfl, rfl, rfl⟩

/-- A refusal ends the request as a problem, with a nonce that can be read or without. -/
theorem postRequest_outcome_refusal : ∃ before envelope next result otherResult,
    Leads (postRequest AccountKey.shortUrl ⟨AccountKey.shortUrl, [], .short⟩) before
      (.call (.post AccountKey.shortUrl envelope) next) ∧ ¬RejectsNonce (refusal "AQ") ∧
    Outcome (refusal "AQ") result ∧ Alike result otherResult ∧
    Runs (next (.ok (refusal "AQ"))) (absorbed (refusal "AQ").headers) result ∧
    Runs (next (.ok (refusal "no nonce"))) (absorbed (refusal "no nonce").headers) otherResult := by
  obtain ⟨envelope, hSign⟩ := AccountKey.exists_sign_short
  have hReply : ofReply (nonceReply (.ok Traffic.nonceResponse)) = .ok ⟨"AA"⟩ := rfl
  obtain ⟨ask, next, hTake, hAsk, rest, hPost⟩ := Traffic.exists_post AccountKey.shortUrl
    ⟨AccountKey.shortUrl, [], .short⟩ hReply hSign
  have hLeads : Leads (postRequest AccountKey.shortUrl ⟨AccountKey.shortUrl, [], .short⟩)
      [⟨.takeNonce, none⟩, ⟨.head AccountKey.shortUrl, .ok Traffic.nonceResponse⟩]
      (.call (.post AccountKey.shortUrl envelope) rest) := by
    rw [hTake]
    refine .turn _ ?_
    rw [hAsk]
    refine .turn _ ?_
    rw [hPost]
    exact .here _
  have hResponse : ¬RejectsNonce (refusal "AQ") :=
    not_rejectsNonce_iff.mpr (Option.isNone_iff_eq_none.mp (by decide +kernel))
  obtain ⟨result, hOutcome, hRuns, hOthers⟩ := postRequest_outcome hLeads hResponse
  obtain ⟨otherResult, hAlike, hOtherRuns⟩ := hOthers _ renonced_refusal
  exact ⟨_, envelope, rest, result, otherResult, hLeads, hResponse, hOutcome, hAlike,
    (hRuns _ _).mpr ⟨rfl, rfl⟩, (hOtherRuns _ _).mpr ⟨rfl, rfl⟩⟩

end Enrollment.Transport
