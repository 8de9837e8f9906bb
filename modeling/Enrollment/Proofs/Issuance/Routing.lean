import Enrollment.Proofs.Fulfilment.Aggregation
import Enrollment.Proofs.Issuance.History
import Enrollment.Proofs.Issuing.JobSafety
import Enrollment.Proofs.Transport.Signing

/-! # Where the requests of an errand go

An errand reads the certificate that it is for from the store. All requests that are made for it,
also those in the work on the tasks that it starts, go to the service of that certificate's
environment and are signed with that certificate's key, whatever the servers and the store answer
and whatever other errands do meanwhile.
-/

namespace Enrollment

open Procedure

/-- The store has told the certificate that an errand is for. -/
def Goal.Certified : Goal → Job.Trace → CertificateRecord → Prop
  | place id, past, record => ∃ later, past = ⟨.store (.certificate id), .ok record⟩ :: later
  | process _ id, past, record => ∃ order later, past = ⟨.store (.order id), .ok order⟩ ::
      ⟨.store (.certificate order.certificate), .ok record⟩ :: later

/-- Work that begins with a question to the store, and ends if that fails, has asked no more than
that, or has got there from what it was told. -/
theorem leads_store_cases {α : Type} {request : StoreRequest} {next : request.Answer → Work α}
    {past : Job.Trace} {rest : Work α} (h : Leads (.call (.store request) next) past rest)
    (fails : ∀ e, ∃ a, next (.error e) = .done a) :
    (∀ found later, past ≠ ⟨.store request, .ok found⟩ :: later) ∧
        (∀ c ∈ Progress.calls ⟨past, rest⟩, c = .store request) ∨
      ∃ found later, past = ⟨.store request, .ok found⟩ :: later ∧
        Leads (next (.ok found)) later rest := by
  rcases leads_call_iff.mp h with ⟨rfl, rfl⟩ | ⟨answer, later, rfl, hLater⟩
  · exact .inl ⟨nofun, by simp [Progress.calls, pending?]⟩
  · cases answer with
    | error e =>
      obtain ⟨a, hDone⟩ := fails e
      rw [hDone] at hLater
      obtain ⟨rfl, rfl⟩ := leads_done_iff.mp hLater
      refine .inl ⟨fun found later hPast => ?_, by simp [Progress.calls, pending?]⟩
      cases hPast
    | ok found => exact .inr ⟨found, later, rfl, hLater⟩

namespace Goal

variable {goal : Goal} {past : Job.Trace} {record other : CertificateRecord}

theorem Certified.unique (h : goal.Certified past record) (h' : goal.Certified past other) :
    other = record := by
  cases goal with
  | place id =>
    obtain ⟨later, rfl⟩ := h
    obtain ⟨later', hPast⟩ := h'
    cases hPast
    rfl
  | process polling id =>
    obtain ⟨order, later, rfl⟩ := h
    obtain ⟨order', later', hPast⟩ := h'
    cases hPast
    rfl

/-- The certificate that an errand is for has not been told, and the store alone has been asked. -/
def Silent (goal : Goal) (w : Progress IssuerCall.Answer goal.Result) : Prop :=
  (∀ record, ¬goal.Certified w.past record) ∧ ∀ c ∈ w.calls, ∃ request, c = .store request

def Follows (goal : Goal) (w : Progress IssuerCall.Answer goal.Result)
    (record : CertificateRecord) : Prop :=
  goal.Certified w.past record ∧ ∀ c ∈ w.calls, c.KeepsTo record.environment record.key

theorem keeping_placed (certificate : Int) (record : CertificateRecord) :
    Keeping record.environment record.key (do
      let request ← .ofExcept (NewOrder.ofNames record.identifiers) .identifiers
      let order ← .ofWork (.ask (IssuerCall.service record.environment (.newOrder request)
        record.key)) .service
      Job.askStore (.insertOrder certificate order) : Attempt JobError Int).run := by
  refine Makes.attempt (Attempt.makes_ofExcept _ _) fun request => ?_
  refine Makes.attempt (Attempt.makes_ofWork (makes_ask ⟨rfl, rfl⟩) _) fun order => ?_
  exact Attempt.makes_ofWork (makes_ask trivial) _

theorem directed_place {certificate : Int} {past : Job.Trace} {rest : Work (Except JobError Int)}
    (h : Leads (Job.place certificate).run past rest) :
    (place certificate).Silent ⟨past, rest⟩ ∨
      ∃ record, (place certificate).Follows ⟨past, rest⟩ record := by
  rcases leads_store_cases h fun _ => ⟨_, rfl⟩ with ⟨hNone, hCalls⟩ | ⟨record, later, rfl, hLater⟩
  · refine .inl ⟨fun record ⟨later, hPast⟩ => hNone record later hPast, ?_⟩
    exact fun c hMem => ⟨_, hCalls c hMem⟩
  · have hKeeps : ∀ c ∈ Progress.calls ⟨later, rest⟩, c.KeepsTo record.environment record.key :=
      Progress.forall_calls (keeping_placed certificate record) hLater
    exact .inr ⟨record, ⟨later, rfl⟩, List.forall_mem_cons.mpr ⟨trivial, hKeeps⟩⟩

theorem directed_process {polling : Polling} {id : Int} {past : Job.Trace}
    {rest : Work (Except JobError Outcome)} (h : Leads (Job.process polling id) past rest) :
    (process polling id).Silent ⟨past, rest⟩ ∨
      ∃ record, (process polling id).Follows ⟨past, rest⟩ record := by
  rcases leads_store_cases h fun _ => ⟨_, rfl⟩ with ⟨hNone, hCalls⟩ | ⟨order, later, rfl, hLater⟩
  · refine .inl ⟨fun record ⟨order, later, hPast⟩ => hNone order _ hPast, ?_⟩
    exact fun c hMem => ⟨_, hCalls c hMem⟩
  · -- The order tells which certificate the second question is about.
    rcases leads_store_cases hLater fun _ => ⟨_, rfl⟩ with ⟨hNone, hCalls⟩ | ⟨record, later, rfl, hLast⟩
    · refine .inl ⟨?_, List.forall_mem_cons.mpr ⟨⟨_, rfl⟩, fun c hMem => ⟨_, hCalls c hMem⟩⟩⟩
      rintro record ⟨order', later', hPast⟩
      cases hPast
      exact hNone record later' rfl
    · let job : Job := { id, location := order.location, certificate := record }
      have hKeeps : ∀ c ∈ Progress.calls ⟨later, rest⟩, c.KeepsTo record.environment record.key :=
        Progress.forall_calls (Job.routes_run polling : job.Routes _) hLast
      refine .inr ⟨record, ⟨order, later, rfl⟩, ?_⟩
      exact List.forall_mem_cons.mpr ⟨trivial, List.forall_mem_cons.mpr ⟨trivial, hKeeps⟩⟩

end Goal

theorem Errand.directed {errand : Errand} (works : errand.Works) :
    errand.goal.Silent errand.work ∨ ∃ record, errand.goal.Follows errand.work record := by
  obtain ⟨goal, past, rest⟩ := errand
  cases goal with
  | place certificate => exact Goal.directed_place works
  | process polling id => exact Goal.directed_process works

namespace Issuance

/-- A call has been made or comes next, by an errand itself or in the work on a task that it has
started. -/
def Issues (s : Issuance) (i : Nat) (c : IssuerCall) : Prop :=
  (∃ errand, s.errands[i]? = some errand ∧ c ∈ errand.work.calls) ∨
    ∃ helper, (i, helper) ∈ s.helpers ∧ c ∈ helper.work.calls

structure Routed (s : Issuance) (i : Nat) (record : CertificateRecord) : Prop where
  requests : ∀ environment request key, s.Issues i (.service environment request key) →
    environment = record.environment ∧ key = record.key
  staging : record.environment = .staging →
    ∀ request key, ¬s.Issues i (.service .production request key)
  proofs : ∀ method proof, s.Issues i (.provision method proof) → proof.key = record.key
  /-- A client that serves the requests signs all that it posts with the key of the certificate. -/
  signed : ∀ environment request key (client : Client),
    s.Issues i (.service environment request key) →
    (client.serve key request).Makes (Exchange.IsSignedWith record.key)

/-- Until the store has told the certificate that an errand is for, nothing is asked of a server;
from then on, all is for that certificate. -/
structure Confined (s : Issuance) (i : Nat) (errand : Errand) : Prop where
  silent : (∀ record, ¬errand.goal.Certified errand.work.past record) →
    ∀ environment request key, ¬s.Issues i (.service environment request key)
  unique : ∀ record other, errand.goal.Certified errand.work.past record →
    errand.goal.Certified errand.work.past other → other = record
  routed : ∀ record, errand.goal.Certified errand.work.past record → Routed s i record

variable {solver : Solver} {s t : Issuance} {i : Nat} {errand : Errand}

theorem mem_calls_of_mem_past {c : IssuerCall} (h : c ∈ errand.work.past.map Turn.call) :
    c ∈ errand.work.calls :=
  List.mem_append_left _ h

theorem Traced.silent (h : Traced solver s) (found : s.errands[i]? = some errand)
    (silent : errand.goal.Silent errand.work) {environment : Environment}
    {request : ServiceRequest} {key : AccountKey} :
    ¬s.Issues i (.service environment request key) := by
  rintro (⟨own, foundOwn, hCall⟩ | ⟨helper, hMem, -⟩)
  · cases found.symm.trans foundOwn
    obtain ⟨question, hQuestion⟩ := silent.2 _ hCall
    cases hQuestion
  · -- The helper is there because the errand has started its task, which is no question to the store.
    obtain ⟨-, own, tasks, foundOwn, hStart, -⟩ := h.helpers i helper hMem
    cases found.symm.trans foundOwn
    obtain ⟨question, hQuestion⟩ := silent.2 _ (mem_calls_of_mem_past hStart)
    cases hQuestion

theorem Traced.keepsTo (h : Traced solver s) (found : s.errands[i]? = some errand)
    {record : CertificateRecord} (follows : errand.goal.Follows errand.work record)
    {c : IssuerCall} (issues : s.Issues i c) : c.KeepsTo record.environment record.key := by
  rcases issues with ⟨own, foundOwn, hCall⟩ | ⟨helper, hMem, hCall⟩
  · cases found.symm.trans foundOwn
    exact follows.2 c hCall
  · -- The helper keeps to its task, and the errand has made that for the certificate.
    obtain ⟨works, own, tasks, foundOwn, hStart, hTask⟩ := h.helpers i helper hMem
    cases found.symm.trans foundOwn
    obtain ⟨hEnvironment, hKey⟩ := follows.2 _ (mem_calls_of_mem_past hStart) _ hTask
    rw [← hEnvironment, ← hKey]
    exact works.keepsTo c hCall

theorem Traced.routed (h : Traced solver s) (found : s.errands[i]? = some errand)
    {record : CertificateRecord} (follows : errand.goal.Follows errand.work record) :
    Routed s i record where
  requests _ _ _ issues := h.keepsTo found follows issues
  staging hStaging request key issues := by
    obtain ⟨hEnvironment, -⟩ := h.keepsTo found follows issues
    rw [hStaging] at hEnvironment
    cases hEnvironment
  proofs _ _ issues := h.keepsTo found follows issues
  signed _ request key client issues := by
    obtain ⟨-, hKey⟩ := h.keepsTo found follows issues
    rw [← hKey]
    exact client.signing_serve key request

theorem Reachable.confined (h : Reachable solver s) (found : s.errands[i]? = some errand) :
    Confined s i errand where
  silent hNone _ _ _ := by
    rcases Errand.directed (h.traced.errands i errand found) with silent | ⟨record, follows⟩
    · exact h.traced.silent found silent
    · exact absurd follows.1 (hNone record)
  unique _ _ certified certified' := certified.unique certified'
  routed record certified := by
    rcases Errand.directed (h.traced.errands i errand found) with silent | ⟨other, follows⟩
    · exact absurd certified (silent.1 record)
    · cases certified.unique follows.1
      exact h.traced.routed found follows

/-! ### Two orders with one authorization -/

def addressOf (name : String) : Url := (Fulfilment.webTask name).url

/-- A certificate whose account is named after its environment. -/
def certificateFor (environment : Environment) : CertificateRecord :=
  ⟨7, "web", ["example.org"], ⟨(Fulfilment.webTask "").key.secret, some environment.name⟩,
    .webInternal, environment, [48]⟩

/-- Every order is pending, with the same authorization; that cannot be read. -/
def answersFor (environment : Environment) (c : IssuerCall) : c.Answer :=
  (Job.smooth (certificateFor environment) (addressOf "order") ⟨["leaf"], by decide⟩ c
    [.new .pending [addressOf "authorization"] (addressOf "finalize")]).1

/-- Both start their tasks. That of the first order is worked on, and the other joins it. -/
def joiningMoves : List Move :=
  [.add (.process ⟨1, 20⟩ 3), .add (.process ⟨1, 20⟩ 4)] ++
    List.replicate 5 (.goOn 0 (answersFor .staging)) ++
    List.replicate 5 (.goOn 1 (answersFor .production)) ++
    [.step 0 .register, .step 1 .register, .help 0 (answersFor .staging)]

/-- The first task has failed, and the other is worked on in its turn. -/
def retryingMoves : List Move :=
  [.step 0 .clear, .step 0 .publish, .step 1 .look, .step 1 .register,
    .help 1 (answersFor .production)]

def toldFor (environment : Environment) (id : Int) : Job.Trace := [
  ⟨.store (.order id), .ok ⟨id, 7, addressOf "order"⟩⟩,
  ⟨.store (.certificate 7), .ok (certificateFor environment)⟩]

def seen (errand : Errand) : Goal × Job.Trace := (errand.goal, errand.work.past.take 2)

def made (helper : Nat × Helper) : Nat × List IssuerCall :=
  (helper.1, helper.2.work.past.map Turn.call)

theorem exists_certified {environment : Environment} {polling : Polling} {id : Int}
    (h : (s.errands.map seen)[i]? = some (.process polling id, toldFor environment id)) :
    ∃ errand, s.errands[i]? = some errand ∧
      errand.goal.Certified errand.work.past (certificateFor environment) := by
  rw [List.getElem?_map] at h
  obtain ⟨⟨goal, past, rest⟩, found, hSeen⟩ := Option.map_eq_some_iff.mp h
  obtain ⟨rfl, hTold⟩ := Prod.mk.inj hSeen
  refine ⟨_, found, ⟨id, 7, addressOf "order"⟩, past.drop 2, ?_⟩
  rw [← List.take_append_drop 2 past, hTold]
  rfl

theorem issues_of_made (caller : Nat) {c : IssuerCall}
    (h : (s.helpers.map made)[caller]? = some (i, [c])) : s.Issues i c := by
  rw [List.getElem?_map] at h
  obtain ⟨⟨j, helper⟩, found, hMade⟩ := Option.map_eq_some_iff.mp h
  obtain ⟨rfl, hCalls⟩ := Prod.mk.inj hMade
  refine .inr ⟨helper, List.mem_of_getElem? found, List.mem_append_left _ ?_⟩
  rw [hCalls]
  exact List.mem_singleton_self c

theorem played_retrying :
    ((joiningMoves.foldlM (move? ⟨[], ⟨1, 20⟩⟩) new).bind fun s =>
      (s.move? ⟨[], ⟨1, 20⟩⟩ (.step 0 (.finish (.error (.service .directoryFetch))))).bind fun t =>
        (retryingMoves.foldlM (move? ⟨[], ⟨1, 20⟩⟩) t).map fun u =>
          (s.helpers[0]?.map fun helper => helper.2.work.rest,
            u.errands.map seen,
            u.helpers.map made)) =
    some (some (.done (.error (.service .directoryFetch))),
      [(.process ⟨1, 20⟩ 3, toldFor .staging 3), (.process ⟨1, 20⟩ 4, toldFor .production 4)],
      [(0, [.service .staging (.authorization (addressOf "authorization"))
          (certificateFor .staging).key]),
        (1, [.service .production (.authorization (addressOf "authorization"))
          (certificateFor .production).key])]) := rfl

/-- The request for staging fails, and then the authorization is asked for at production, by the
order that is for production. -/
theorem confined_of_failed_staging :
    ∃ s staging production, Reachable ⟨[], ⟨1, 20⟩⟩ s ∧
      s.errands[0]? = some staging ∧ s.errands[1]? = some production ∧
      staging.goal.Certified staging.work.past (certificateFor .staging) ∧
      production.goal.Certified production.work.past (certificateFor .production) ∧
      s.Issues 0 (.service .staging (.authorization (addressOf "authorization"))
        (certificateFor .staging).key) ∧
      s.Issues 1 (.service .production (.authorization (addressOf "authorization"))
        (certificateFor .production).key) ∧
      Confined s 0 staging ∧ Confined s 1 production := by
  obtain ⟨s, joined, hRest⟩ := Option.bind_eq_some_iff.mp played_retrying
  obtain ⟨t, finishes, hRest⟩ := Option.bind_eq_some_iff.mp hRest
  obtain ⟨u, retried, hSeen⟩ := Option.map_eq_some_iff.mp hRest
  simp only [Prod.mk.injEq] at hSeen
  obtain ⟨ended, hErrands, hHelpers⟩ := hSeen
  have hSound : s.Sound (.step 0 (.finish (.error (.service .directoryFetch)))) := by
    intro i helper found
    rw [found] at ended
    exact Option.some.inj ended
  have hJoined : Reachable ⟨[], ⟨1, 20⟩⟩ s := .play .new joined (by simp [joiningMoves])
  have reachable : Reachable ⟨[], ⟨1, 20⟩⟩ u :=
    .play (.move _ hJoined hSound finishes) retried (by simp [retryingMoves])
  obtain ⟨staging, foundStaging, hStaging⟩ :=
    exists_certified (s := u) (i := 0) (by rw [hErrands]; rfl)
  obtain ⟨production, foundProduction, hProduction⟩ :=
    exists_certified (s := u) (i := 1) (by rw [hErrands]; rfl)
  exact ⟨u, staging, production, reachable, foundStaging, foundProduction, hStaging, hProduction,
    issues_of_made 0 (by rw [hHelpers]; rfl), issues_of_made 1 (by rw [hHelpers]; rfl),
    Reachable.confined reachable foundStaging, Reachable.confined reachable foundProduction⟩

end Issuance

end Enrollment
