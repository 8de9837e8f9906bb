import Enrollment.Issuing.Fulfiller
import Enrollment.Proofs.Fulfilment.Results
import Enrollment.Proofs.Issuing.Routing

/-! # Work on the tasks of callers

A caller of a fulfiller that does the work on its task itself does it call by call, with the calls
of others in between, and comes to a result when the work is done.
-/

namespace Enrollment

open Authorizations Procedure

structure Helper where
  task : AuthorizationTask
  work : Progress IssuerCall.Answer Result

namespace Helper

def new (solver : Solver) (task : AuthorizationTask) : Helper :=
  ⟨task, .start (fulfillOne solver task)⟩

/-- The next call of a helper is answered. It makes calls only while its caller does the work. -/
def goOn? (flights : AuthorizationFlights) (caller : Nat)
    (answers : (c : IssuerCall) → c.Answer) (helper : Helper) : Option Helper :=
  match flights.phase? caller with
  | some (.working _) => (helper.work.answer? answers).map fun work => { helper with work }
  | _ => none

/-- When a caller ends its work, that has come to its result. -/
def Admits (helper : Helper) : SingleFlight.Step AuthorizationStatus FulfillError → Prop
  | .finish result => helper.work.rest = .done result
  | .register | .drop | .clear | .publish | .look => True

/-- The helper has done nothing but the work on its task. -/
def Works (solver : Solver) (helper : Helper) : Prop :=
  Leads (fulfillOne solver helper.task) helper.work.past helper.work.rest

variable {solver : Solver} {helper helper' : Helper} {flights : AuthorizationFlights}
  {caller : Nat} {answers : (c : IssuerCall) → c.Answer}

theorem admits_of_ne_finish {step : SingleFlight.Step AuthorizationStatus FulfillError}
    (h : ∀ result, step ≠ .finish result) : helper.Admits step := by
  cases step with
  | finish result => exact absurd rfl (h result)
  | register | drop | clear | publish | look => trivial

theorem works_new (solver : Solver) (task : AuthorizationTask) : (new solver task).Works solver :=
  .here _

theorem goOn?_eq_some (h : helper.goOn? flights caller answers = some helper') :
    (∃ f, flights.phase? caller = some (.working f)) ∧ ∃ work,
      helper.work.answer? answers = some work ∧ helper' = { helper with work } := by
  unfold goOn? at h
  split at h
  · next f hPhase =>
    obtain ⟨work, hWork, rfl⟩ := Option.map_eq_some_iff.mp h
    exact ⟨⟨f, hPhase⟩, work, hWork, rfl⟩
  · cases h

theorem Works.goOn (h : helper.Works solver)
    (moves : helper.goOn? flights caller answers = some helper') :
    helper'.Works solver ∧ helper'.task = helper.task := by
  obtain ⟨-, work, hWork, rfl⟩ := goOn?_eq_some moves
  exact ⟨Progress.leads_of_answer? h hWork, rfl⟩

theorem Works.keepsTo (h : helper.Works solver) :
    ∀ c ∈ helper.work.calls, c.KeepsTo helper.task.environment helper.task.key :=
  Progress.forall_calls (keeping_fulfillOne solver helper.task) h

end Helper

/-- What moves keep, any number of them keep. -/
theorem of_foldlM {σ μ : Type} {move? : σ → μ → Option σ} {kept : σ → Prop} {moves : List μ}
    {s t : σ} (start : kept s) (played : moves.foldlM move? s = some t)
    (keeps : ∀ s t m, m ∈ moves → kept s → move? s m = some t → kept t) : kept t := by
  induction moves generalizing s with
  | nil =>
    cases played
    exact start
  | cons m moves ih =>
    obtain ⟨u, hMove, hRest⟩ := Option.bind_eq_some_iff.mp played
    refine ih (keeps s u m List.mem_cons_self start hMove) hRest ?_
    intro s t m' hMem
    exact keeps s t m' (List.mem_cons_of_mem m hMem)

end Enrollment
