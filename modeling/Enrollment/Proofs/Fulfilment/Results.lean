import Mathlib.Data.List.Perm.Basic
import Enrollment.Issuing.Authorizations
import Enrollment.Proofs.Procedure.Completion

/-! # Results of tasks on authorizations

What the work on one authorization can come to, and what the results of several come to together.
The order in which they ended decides no more than which error is told.
-/

namespace Enrollment.Authorizations

open Procedure

abbrev Result := Except FulfillError AuthorizationStatus

/-- Whether a result is what the work on a task comes to, with some surroundings. -/
def IsResult (solver : Solver) (task : AuthorizationTask) (result : Result) : Prop :=
  ∃ trace, Runs (fulfillOne solver task) trace result

/-- A result that says what became of the authorization, or what went wrong. -/
def Settled : Result → Prop
  | .ok status => status ≠ .pending ∧ ∀ name, status ≠ .unknown name
  | .error e => e ≠ .stillPending

theorem eq_wrap_of_runs_ofWork {δ ε α : Type} {work : Work (Except δ α)} {wrap : δ → ε}
    {trace : List (Turn IssuerCall.Answer)} {e : ε}
    (run : Runs (Attempt.ofWork work wrap).run trace (.error e)) : ∃ cause, e = wrap cause := by
  obtain ⟨-, answer, last, -, -, hDone⟩ := runs_bind_iff.mp run
  obtain ⟨-, hResult⟩ := runs_done_iff.mp hDone
  cases answer with
  | ok a => cases hResult
  | error cause =>
    cases hResult
    exact ⟨cause, rfl⟩

theorem settled_of_isResult {solver : Solver} {task : AuthorizationTask} {result : Result}
    (h : IsResult solver task result) : Settled result := by
  obtain ⟨trace, run⟩ := h
  rcases Runs.attempt run with ⟨e, hFetch, rfl⟩ | ⟨-, authorization, after, -, -, hStatus⟩
  · obtain ⟨cause, rfl⟩ := eq_wrap_of_runs_ofWork hFetch
    exact nofun
  cases hAuthorization : authorization.status with
  | pending =>
    simp only [hAuthorization] at hStatus
    rcases Runs.attempt hStatus with ⟨e, hSolve, rfl⟩ | ⟨-, solved, last, -, -, hSolved⟩
    · obtain ⟨cause, rfl⟩ := eq_wrap_of_runs_ofWork hSolve
      exact nofun
    · -- A challenge that was solved makes the authorization valid or invalid.
      split at hSolved <;>
      · obtain ⟨-, rfl⟩ := runs_done_iff.mp hSolved
        exact ⟨nofun, fun _ => nofun⟩
  | unknown name =>
    simp only [hAuthorization] at hStatus
    obtain ⟨-, rfl⟩ := runs_done_iff.mp hStatus
    exact nofun
  | valid | invalid | deactivated | expired | revoked =>
    simp only [hAuthorization] at hStatus
    obtain ⟨-, rfl⟩ := runs_done_iff.mp hStatus
    exact ⟨nofun, fun _ => nofun⟩

/-! ### Several results together -/

/-- What results come to in the order in which they are joined. -/
def combine (results : List Result) : Result := (firstError results).bind aggregate

theorem firstError_map_ok {ε α : Type} (values : List α) :
    firstError (values.map (.ok : α → Except ε α)) = .ok values := by
  induction values with
  | nil => rfl
  | cons a values ih =>
    rw [List.map_cons, firstError, ih]
    rfl

/-- The first error has values before it only. -/
theorem firstError_cases {ε α : Type} (results : List (Except ε α)) :
    (∃ values : List α, results = values.map .ok) ∨
      ∃ e, .error e ∈ results ∧ firstError results = .error e := by
  induction results with
  | nil => exact .inl ⟨[], rfl⟩
  | cons result results ih =>
    cases result with
    | error e => exact .inr ⟨e, List.mem_cons_self, rfl⟩
    | ok a =>
      rcases ih with ⟨values, rfl⟩ | ⟨e, hMem, hFirst⟩
      · exact .inl ⟨a :: values, rfl⟩
      · refine .inr ⟨e, List.mem_cons_of_mem _ hMem, ?_⟩
        rw [firstError, hFirst]
        rfl

theorem combine_of_values (statuses : List AuthorizationStatus) :
    combine (statuses.map .ok) = aggregate statuses := by
  rw [combine, firstError_map_ok]
  rfl

theorem aggregate_cases {statuses : List AuthorizationStatus} (settled : .pending ∉ statuses) :
    (∀ status ∈ statuses, status = .valid) ∧ aggregate statuses = .ok .valid ∨
      (∃ status ∈ statuses, status ≠ .valid) ∧ aggregate statuses = .ok .invalid := by
  rw [aggregate, if_neg (by simpa using settled)]
  by_cases hValid : ∀ status ∈ statuses, status = .valid
  · exact .inl ⟨hValid, if_pos (by simpa using hValid)⟩
  · exact .inr ⟨by simpa using hValid, if_neg (by simpa using hValid)⟩

/-- What settled results come to. -/
theorem combine_cases {results : List Result} (settled : ∀ r ∈ results, Settled r) :
    (∃ e, .error e ∈ results ∧ combine results = .error e) ∨
      (∀ r ∈ results, r = .ok .valid) ∧ combine results = .ok .valid ∨
      ((∀ r ∈ results, ∃ status, r = .ok status) ∧ ∃ r ∈ results, r ≠ .ok .valid) ∧
        combine results = .ok .invalid := by
  rcases firstError_cases results with ⟨statuses, rfl⟩ | ⟨e, hMem, hFirst⟩
  · have hPending : .pending ∉ statuses := fun hMem =>
      (settled _ (List.mem_map_of_mem hMem)).1 rfl
    rw [combine_of_values]
    rcases aggregate_cases hPending with ⟨hValid, hStatus⟩ | ⟨⟨status, hMem, hNot⟩, hStatus⟩
    · refine .inr (.inl ⟨fun r hMem => ?_, hStatus⟩)
      obtain ⟨status, hStatusMem, rfl⟩ := List.mem_map.mp hMem
      rw [hValid status hStatusMem]
    · refine .inr (.inr ⟨⟨fun r hMem => ?_, .ok status, List.mem_map_of_mem hMem, ?_⟩, hStatus⟩)
      · obtain ⟨other, -, rfl⟩ := List.mem_map.mp hMem
        exact ⟨other, rfl⟩
      · exact fun hValid => hNot (Except.ok.inj hValid)
  · refine .inl ⟨e, hMem, ?_⟩
    rw [combine, hFirst]
    rfl

section

variable {results others : List Result} {result : Result}

/-- How the result of a call for several authorizations comes from theirs. -/
structure Combined (results : List Result) (result : Result) : Prop where
  fails_iff : (∃ e, result = .error e) ↔ ∃ e, .error e ∈ results
  blames : ∀ e, result = .error e → .error e ∈ results
  valid_iff : result = .ok .valid ↔ ∀ r ∈ results, r = .ok .valid
  invalid_iff : result = .ok .invalid ↔
    (∀ r ∈ results, ∃ status, r = .ok status) ∧ ∃ r ∈ results, r ≠ .ok .valid
  total : (∃ e, result = .error e) ∨ result = .ok .valid ∨ result = .ok .invalid

theorem combined (settled : ∀ r ∈ results, Settled r) : Combined results (combine results) := by
  rcases combine_cases settled with ⟨e, hMem, hCombine⟩ | ⟨hValid, hCombine⟩ |
    ⟨⟨hOk, r, hMem, hNot⟩, hCombine⟩ <;> rw [hCombine]
  · constructor
    · exact ⟨fun _ => ⟨e, hMem⟩, fun _ => ⟨e, rfl⟩⟩
    · rintro e ⟨⟩
      exact hMem
    · refine ⟨nofun, fun hValid => ?_⟩
      cases hValid _ hMem
    · refine ⟨nofun, fun h => ?_⟩
      obtain ⟨status, hStatus⟩ := h.1 _ hMem
      cases hStatus
    · exact .inl ⟨e, rfl⟩
  · constructor
    · constructor
      · rintro ⟨e, hError⟩
        cases hError
      · rintro ⟨e, hMem⟩
        cases hValid _ hMem
    · intro e hError
      cases hError
    · exact ⟨fun _ => hValid, fun _ => rfl⟩
    · refine ⟨nofun, ?_⟩
      rintro ⟨-, r, hMem, hNot⟩
      exact absurd (hValid r hMem) hNot
    · exact .inr (.inl rfl)
  · constructor
    · constructor
      · rintro ⟨e, hError⟩
        cases hError
      · rintro ⟨e, hMem⟩
        obtain ⟨status, hStatus⟩ := hOk _ hMem
        cases hStatus
    · intro e hError
      cases hError
    · exact ⟨nofun, fun hValid => absurd (hValid r hMem) hNot⟩
    · exact ⟨fun _ => ⟨hOk, r, hMem, hNot⟩, fun _ => rfl⟩
    · exact .inr (.inr rfl)

namespace Combined

theorem perm (h : Combined results result) (perm : others.Perm results) :
    Combined others result where
  fails_iff := by simpa only [perm.mem_iff] using h.fails_iff
  blames e he := perm.mem_iff.mpr (h.blames e he)
  valid_iff := by simpa only [perm.mem_iff] using h.valid_iff
  invalid_iff := by simpa only [perm.mem_iff] using h.invalid_iff
  total := h.total

/-- The results leave open no more than which error is told. -/
theorem unique {result' : Result} (h : Combined results result) (h' : Combined results result') :
    result.toOption = result'.toOption := by
  rcases h.total with ⟨e, rfl⟩ | rfl | rfl
  · obtain ⟨e', rfl⟩ := h'.fails_iff.mpr (h.fails_iff.mp ⟨e, rfl⟩)
    rfl
  · rw [h'.valid_iff.mpr (h.valid_iff.mp rfl)]
  · rw [h'.invalid_iff.mpr (h.invalid_iff.mp rfl)]

theorem settled (h : Combined results result) (settled : ∀ r ∈ results, Settled r) :
    Settled result := by
  rcases h.total with ⟨e, rfl⟩ | rfl | rfl
  · exact settled _ (h.blames e rfl)
  · exact ⟨nofun, fun _ => nofun⟩
  · exact ⟨nofun, fun _ => nofun⟩

end Combined

end

end Enrollment.Authorizations
