import Enrollment.Proofs.Issuing.JobTrace

/-! # Safety of order jobs

Whatever a server and a store answer, a job hands every order on to the store before it does
anything else, asks for the certificate of a ready order only, and ends an order once: with the
certificate that the server issued for it, or as invalid.
-/

namespace Enrollment.Job

open Procedure

section Specs

variable {job : Job} {past : Trace} {α : Type} {permits : Trace → IssuerCall → Prop}
  {broken : Trace → Prop}

theorem meets_askStore {request : StoreRequest} {post : Trace → request.Result → Prop}
    (hPermits : permits past (.store request))
    (hOk : ∀ a, post (past ++ [⟨.store request, .ok a⟩]) a)
    (hError : ∀ e, broken (past ++ [⟨.store request, .error e⟩])) :
    (askStore request).run.Meets permits (Ends broken post) past := by
  refine ⟨hPermits, fun answer => ?_⟩
  cases answer with
  | ok a => exact hOk a
  | error e => exact hError e

theorem meets_askService {request : ServiceRequest} {post : Trace → request.Result → Prop}
    (hPermits :
      permits past (.service job.certificate.environment request job.certificate.key))
    (hOk : ∀ a, post (past ++
      [⟨.service job.certificate.environment request job.certificate.key, .ok a⟩]) a)
    (hError : ∀ e, broken (past ++
      [⟨.service job.certificate.environment request job.certificate.key, .error e⟩])) :
    (job.askService request).run.Meets permits (Ends broken post) past := by
  refine ⟨hPermits, fun answer => ?_⟩
  cases answer with
  | ok a => exact hOk a
  | error e => exact hError e

end Specs

/-- An order has come in for a job that had nothing left to hand on. -/
def Received (job : Job) (order : Order) (past : Trace) : Prop :=
  ∃ before turn, Open job before ∧ turn.call.updated? = none ∧ turn.call.closes = false ∧
    turn.received? = some order ∧ past = before ++ [turn]

/-- What work on a job has to meet that goes on from some calls. -/
abbrev Keeps (job : Job) {α : Type} (post : Trace → α → Prop) (work : Attempt JobError α)
    (past : Trace) : Prop :=
  work.run.Meets (Permitted job.id) (Ends (Broken job.id) post) past

/-- Work that takes a job to its end. -/
abbrev Settles (job : Job) (work : Attempt JobError Outcome) (past : Trace) : Prop :=
  job.Keeps (Finished job.id) work past

section

variable {job : Job} {past : Trace} {order : Order}

theorem Received.permitted (h : Received job order past) :
    Permitted job.id past (.store (.updateOrder job.id order)) where
  handed := by
    obtain ⟨before, turn, hOpen, hUpdated, -, hReceived, rfl⟩ := h
    exact hOpen.handed.receive hUpdated hReceived
  completes environment url request key hCall := by cases hCall

theorem Received.open (h : Received job order past) (answer : Except StoreError Unit) :
    Open job (past ++ [⟨.store (.updateOrder job.id order), answer⟩]) := by
  have hPermitted := h.permitted
  obtain ⟨before, turn, hOpen, hUpdated, hCloses, hReceived, rfl⟩ := h
  refine ⟨hOpen.loaded.append.append, hPermitted.handed.snoc rfl, ?_⟩
  intro other hMem
  rcases List.mem_append.mp hMem with hOld | hNew
  · exact hOpen.unclosed_snoc hCloses other hOld
  · rw [List.mem_singleton.mp hNew]
    rfl

theorem Received.held (h : Received job order past) :
    Held job order (past ++ [⟨.store (.updateOrder job.id order), .ok ()⟩]) where
  toOpen := h.open (.ok ())
  persisted := by
    obtain ⟨before, turn, -, -, -, hReceived, rfl⟩ := h
    exact ⟨before, turn, hReceived, by simp⟩

theorem keeps_receive {request : Attempt JobError Order}
    (hRequest : job.Keeps (fun past order => Received job order past) request past) :
    job.Keeps (fun past order => Held job order past) (job.receive request) past := by
  refine Meets.attempt _ hRequest ?_
  intro past order hReceived
  refine Meets.attempt (fun past _ => Held job order past) ?_ fun _ _ hHeld => hHeld
  exact meets_askStore hReceived.permitted (fun _ => hReceived.held)
    fun e => (hReceived.open (.error e)).broken

theorem keeps_fetch (h : Open job past) :
    job.Keeps (fun past order => Held job order past) job.fetch past := by
  refine keeps_receive (meets_askService ?_ ?_ ?_)
  · refine h.handed.permitted rfl ?_
    intro environment url request key hCall
    cases hCall
  · exact fun order => ⟨past, _, h, rfl, rfl, rfl, rfl⟩
  · exact fun e => (h.snoc rfl rfl rfl).broken

theorem keeps_finalize (h : Held job order past) (hReady : order.status = .ready) :
    job.Keeps (fun past order => Held job order past) (job.finalize order) past := by
  unfold finalize
  cases hRequest : FinalizeRequest.ofDer job.certificate.request with
  | error e => exact h.broken
  | ok request =>
    refine keeps_receive (meets_askService ⟨h.handed.permit rfl, ?_⟩ ?_ ?_)
    · rintro environment url request' key ⟨⟩
      exact ⟨job, order, rfl, h.loaded, h.persisted, hReady, rfl, hRequest, rfl, rfl⟩
    · exact fun order => ⟨past, _, h.toOpen, rfl, rfl, rfl, rfl⟩
    · exact fun e => (h.snoc rfl rfl rfl).broken

theorem Open.broken_closing (h : Open job past) {request : StoreRequest}
    (hUpdated : (IssuerCall.store request).updated? = none) {e : StoreError} :
    Broken job.id (past ++ [⟨.store request, .error e⟩]) where
  handed := (h.handed.permit hUpdated).snoc rfl
  unclosed turn hMem := by
    rcases List.mem_append.mp hMem with hOld | hNew
    · exact Turn.closed_of_closes (h.unclosed turn hOld)
    · rw [List.mem_singleton.mp hNew]
      cases request <;> rfl

theorem settles_save (h : Held job order past) (hValid : order.status = .valid) :
    job.Settles (job.save order) past := by
  unfold save
  cases hUrl : order.certificate with
  | none => exact h.broken
  | some url =>
    have hAsked (answer : Except ClientError CertificateChain) :
        Open job (past ++ [⟨.service job.certificate.environment (.certificate url)
          job.certificate.key, answer⟩]) := h.plain rfl
    refine Meets.attempt (fun later chain => later = past ++
      [⟨.service job.certificate.environment (.certificate url) job.certificate.key,
        .ok chain⟩]) ?_ ?_
    · exact meets_askService (h.permitted_plain rfl) (fun _ => rfl)
        fun e => (hAsked (.error e)).broken
    · rintro _ chain rfl
      have hOpen := hAsked (.ok chain)
      refine Meets.attempt (fun later _ => Finished job.id later .issued) ?_
        fun _ _ hFinished => hFinished
      refine meets_askStore (hOpen.handed.permitted rfl (by intro _ _ _ _ hCall; cases hCall)) ?_ ?_
      · intro _
        refine ⟨(hOpen.handed.permit rfl).snoc rfl, ?_⟩
        exact ⟨job, order, url, chain, past, rfl, h.loaded, h.persisted, hValid, hUrl, h.unclosed,
          by simp⟩
      · exact fun e => hOpen.broken_closing rfl

theorem settles_giveUp (h : Open job past) (notice : Notice)
    (hReason : (∃ order, Persisted job.id order past ∧ order.status = .invalid) ∨
      Unauthorized job.id past) :
    job.Settles (job.giveUp notice) past := by
  have hOpen : Open job (past ++ [⟨.notify notice, ()⟩]) := h.plain rfl
  refine Meets.attempt (fun later _ => later = past ++ [⟨.notify notice, ()⟩]) ?_ ?_
  · exact ⟨h.permitted_plain rfl, fun _ => rfl⟩
  · rintro _ _ rfl
    refine Meets.attempt (fun later _ => Finished job.id later .invalid) ?_
      fun _ _ hFinished => hFinished
    refine meets_askStore (hOpen.handed.permitted rfl (by intro _ _ _ _ hCall; cases hCall)) ?_ ?_
    · intro _
      exact ⟨(hOpen.handed.permit rfl).snoc rfl, notice, past, h.unclosed, hReason, by simp⟩
    · exact fun e => hOpen.broken_closing rfl

theorem joined?_join (group : Nat) (ending : TaskEnd) :
    Turn.joined? group ⟨.join group, ending⟩ = some (Authorizations.resultOf ending) :=
  if_pos rfl

/-- Joining tasks leaves a job as it was, and brings the results of as many tasks. -/
theorem meets_joinAll (group : Nat) (count : Nat) (h : Open job past) :
    (Authorizations.joinAll group count).Meets (Permitted job.id)
      (fun later results => Open job later ∧ results.length = count ∧
        ∃ joins, later = past ++ joins ∧ results = joins.filterMap (Turn.joined? group))
      past := by
  induction count generalizing past with
  | zero => exact ⟨h, rfl, [], (List.append_nil _).symm, rfl⟩
  | succ count ih =>
    refine ⟨h.permitted_plain rfl, fun ending => ?_⟩
    have hJoined : Open job (past ++ [⟨.join group, ending⟩]) := h.plain rfl
    -- The notice of a failed task stands between its end and that of the next one.
    have hRest (noted : Trace) (hNoted : noted.filterMap (Turn.joined? group) = [])
        (hOpen : Open job (past ++ [⟨.join group, ending⟩] ++ noted)) :
        ((Authorizations.joinAll group count).bind fun results =>
          .done (Authorizations.resultOf ending :: results)).Meets (Permitted job.id)
          (fun later results => Open job later ∧ results.length = count + 1 ∧
            ∃ joins, later = past ++ joins ∧ results = joins.filterMap (Turn.joined? group))
          (past ++ [⟨.join group, ending⟩] ++ noted) := by
      refine Meets.bind (ih hOpen) ?_
      rintro _ results ⟨hLater, hLength, joins, rfl, rfl⟩
      refine ⟨hLater, congrArg Nat.succ hLength, ⟨.join group, ending⟩ :: (noted ++ joins),
        by simp, ?_⟩
      rw [List.filterMap_cons, joined?_join, List.filterMap_append, hNoted]
      rfl
    dsimp only [Procedure.done_bind]
    split
    · have hNotice : Open job (past ++ [⟨.join group, ending⟩] ++
        [⟨.notify .authorizationUnfinished, ()⟩]) := hJoined.plain rfl
      exact ⟨hJoined.permitted_plain rfl, fun _ => hRest _ rfl hNotice⟩
    · have hTail := hRest [] rfl (by rw [List.append_nil]; exact hJoined)
      rw [List.append_nil] at hTail
      exact hTail

/-- Authorizations that come out other than valid were all worked on. -/
theorem meets_fulfill (h : Held job order past) (hPending : order.status = .pending) :
    (Authorizations.fulfill (order.authorizations.map job.taskFor)).Meets (Permitted job.id)
      (Ends (Broken job.id) fun later status =>
        Open job later ∧ (status ≠ .valid → Unauthorized job.id later)) past := by
  refine ⟨h.permitted_plain rfl, fun group => ?_⟩
  have hStarted : Open job (past ++
    [⟨.start (order.authorizations.map job.taskFor), group⟩]) := h.plain rfl
  have hJoins := meets_joinAll group (order.authorizations.map job.taskFor).length hStarted
  refine Meets.bind (p := Authorizations.joinAll group _) hJoins ?_
  rintro _ results ⟨hOpen, hLength, joins, rfl, rfl⟩
  cases hVerdict : (Authorizations.firstError (joins.filterMap (Turn.joined? group))).bind
    Authorizations.aggregate with
  | error e => exact hOpen.broken
  | ok status =>
    refine ⟨hOpen, fun hStatus => ?_⟩
    exact ⟨job, order, past, group, joins, status, rfl, h.loaded, h.persisted, hPending, by simp,
      by simpa using hLength, hVerdict, hStatus⟩

theorem meets_ofWork {α δ ε : Type} {permits : Trace → IssuerCall → Prop} {broken : Trace → Prop}
    {post : Trace → α → Prop} {work : Work (Except δ α)} {wrap : δ → ε}
    (h : work.Meets permits (Ends broken post) past) :
    (Attempt.ofWork work wrap).run.Meets permits (Ends broken post) past := by
  refine Meets.bind h ?_
  intro past result hResult
  cases result with
  | ok a => exact hResult
  | error e => exact hResult

theorem settles_fulfill {next : Attempt JobError Outcome} (h : Held job order past)
    (hPending : order.status = .pending) (hNext : ∀ past, Open job past → job.Settles next past) :
    job.Settles (job.fulfill next order) past := by
  refine Meets.attempt _ (meets_ofWork (meets_fulfill h hPending)) ?_
  rintro later status ⟨hOpen, hReason⟩
  by_cases hValid : status = .valid
  · rw [if_pos hValid]
    exact hNext later hOpen
  · rw [if_neg hValid]
    exact settles_giveUp hOpen _ (.inr (hReason hValid))

theorem settles_advance {onPending : Order → Attempt JobError Outcome}
    {wait : Attempt JobError Outcome} (h : Held job order past)
    (hPending : ∀ order past, Held job order past → order.status = .pending →
      job.Settles (onPending order) past)
    (hWait : ∀ past, Open job past → job.Settles wait past) :
    job.Settles (job.advance onPending wait order) past := by
  unfold advance
  cases hStatus : order.status with
  | pending => exact hPending order past h hStatus
  | processing => exact hWait past h.toOpen
  | valid => exact settles_save h hStatus
  | invalid => exact settles_giveUp h.toOpen _ (.inl ⟨order, h.persisted, hStatus⟩)
  | ready =>
    refine Meets.attempt _ (keeps_finalize h hStatus) ?_
    intro past finalized hFinalized
    cases hStatus : finalized.status with
    | pending => exact hPending finalized past hFinalized hStatus
    | processing | ready => exact hWait past hFinalized.toOpen
    | valid => exact settles_save hFinalized hStatus
    | invalid =>
      exact settles_giveUp hFinalized.toOpen _ (.inl ⟨finalized, hFinalized.persisted, hStatus⟩)

theorem settles_settle {wait : Bool → Attempt JobError Outcome} (fulfilled : Bool)
    (h : Held job order past)
    (hWait : ∀ fulfilled past, Open job past → job.Settles (wait fulfilled) past) :
    job.Settles (job.settle wait fulfilled order) past := by
  have hSettled (order : Order) (past : Trace) (h : Held job order past) :
      job.Settles (job.advance (fun _ => wait true) (wait true) order) past :=
    settles_advance h (fun _ past hHeld _ => hWait true past hHeld.toOpen) (hWait true)
  cases fulfilled with
  | true => exact hSettled order past h
  | false =>
    refine settles_advance h ?_ (hWait false)
    intro order past hHeld hPending
    refine settles_fulfill hHeld hPending ?_
    intro past hOpen
    exact Meets.attempt _ (keeps_fetch hOpen) fun past order hFetched =>
      hSettled order past hFetched

theorem settles_poll (polling : Polling) (attempts : Nat) (fulfilled : Bool) (past : Trace)
    (h : Open job past) : job.Settles (job.poll polling attempts fulfilled) past := by
  induction attempts generalizing fulfilled past with
  | zero => exact h.broken
  | succ attempts ih =>
    refine Meets.attempt (fun later _ => Open job later) ?_ ?_
    · exact ⟨h.permitted_plain rfl, fun _ => h.plain rfl⟩
    · intro later waited hOpen
      cases waited with
      | shutdown => exact hOpen.broken
      | elapsed =>
        exact Meets.attempt _ (keeps_fetch hOpen) fun past order hFetched =>
          settles_settle fulfilled hFetched ih

theorem settles_run (polling : Polling) (h : Open job past) : job.Settles (job.run polling) past :=
  Meets.attempt _ (keeps_fetch h) fun _ _ hFetched =>
    settles_settle false hFetched (settles_poll polling polling.attempts)

end

theorem meets_load (id : Int) :
    (load id).run.Meets (Permitted id)
      (Ends (Broken id) fun past job => job.id = id ∧ Open job past) [] := by
  have hStart : Handed id [] none := rfl
  refine Meets.attempt (fun past record => past = [⟨.store (.order id), .ok record⟩]) ?_ ?_
  · refine meets_askStore (hStart.permitted rfl ?_) (fun _ => rfl) ?_
    · intro _ _ _ _ hCall
      cases hCall
    · exact fun e => ⟨rfl, by simp [Turn.closed]⟩
  · rintro _ record rfl
    refine Meets.attempt (fun past certificate => past = [⟨.store (.order id), .ok record⟩,
      ⟨.store (.certificate record.certificate), .ok certificate⟩]) ?_ ?_
    · refine meets_askStore (Handed.permitted rfl rfl ?_) (fun _ => rfl) ?_
      · intro _ _ _ _ hCall
        cases hCall
      · exact fun e => ⟨rfl, by simp [Turn.closed]⟩
    · rintro _ certificate rfl
      exact ⟨rfl, ⟨record, [], rfl, rfl⟩, rfl, by simp [IssuerCall.closes]⟩

theorem meets_process (polling : Polling) (id : Int) :
    (process polling id).Meets (Permitted id) (Ends (Broken id) (Finished id)) [] := by
  refine Meets.attempt _ (meets_load id) ?_
  rintro past job ⟨rfl, hOpen⟩
  exact settles_run polling hOpen

/-- What holds at every point of every run of a job. -/
structure Safe (id : Int) (trace : Trace) (rest : Work (Except JobError Outcome)) : Prop where
  handed : Handed id trace rest.pending?
  completes : ∀ c, rest.pending? = some c → Completes id trace c
  issued : ∀ result, rest = .done result → (result = .ok .issued ↔ Issued id trace)
  invalid : ∀ result, rest = .done result → (result = .ok .invalid ↔ Invalidated id trace)
  failed : ∀ e, rest = .done (.error e) → ∀ turn ∈ trace, turn.closed = false

theorem Issued.not_broken {id : Int} {trace : Trace} (h : Issued id trace)
    (hBroken : Broken id trace) : False := by
  obtain ⟨job, order, url, chain, before, -, -, -, -, -, -, rfl⟩ := h
  have hClosed := hBroken.unclosed ⟨.store (.saveCertificate id chain), .ok ()⟩ (by simp)
  cases hClosed

theorem Invalidated.not_broken {id : Int} {trace : Trace} (h : Invalidated id trace)
    (hBroken : Broken id trace) : False := by
  obtain ⟨notice, before, -, -, rfl⟩ := h
  have hClosed := hBroken.unclosed ⟨.store (.markOrderInvalid id), .ok ()⟩ (by simp)
  cases hClosed

theorem Issued.not_invalidated {id : Int} {trace : Trace} (h : Issued id trace)
    (hInvalidated : Invalidated id trace) : False := by
  obtain ⟨job, order, url, chain, before, -, -, -, -, -, -, rfl⟩ := h
  obtain ⟨notice, before', -, -, hTrace⟩ := hInvalidated
  have hLast := congrArg (·.getLast?) hTrace
  simp at hLast

theorem Permitted.safe {id : Int} {trace : Trace} {c : IssuerCall}
    {next : c.Answer → Work (Except JobError Outcome)} (h : Permitted id trace c) :
    Safe id trace (.call c next) where
  handed := h.handed
  completes c hCall := Option.some.inj hCall ▸ h.completes
  issued result hDone := by cases hDone
  invalid result hDone := by cases hDone
  failed e hDone := by cases hDone

theorem Broken.safe {id : Int} {trace : Trace} {e : JobError} (h : Broken id trace) :
    Safe id trace (.done (.error e)) where
  handed := h.handed
  completes c hCall := by cases hCall
  issued := by
    rintro _ ⟨⟩
    exact ⟨nofun, fun hIssued => (hIssued.not_broken h).elim⟩
  invalid := by
    rintro _ ⟨⟩
    exact ⟨nofun, fun hInvalidated => (hInvalidated.not_broken h).elim⟩
  failed _ _ := h.unclosed

theorem Finished.safe {id : Int} {trace : Trace} {outcome : Outcome}
    (h : Finished id trace outcome) : Safe id trace (.done (.ok outcome)) where
  handed := h.handed
  completes c hCall := by cases hCall
  issued := by
    rintro _ ⟨⟩
    cases outcome with
    | issued => exact ⟨fun _ => h.ending, fun _ => rfl⟩
    | invalid =>
      exact ⟨nofun, fun hIssued => (hIssued.not_invalidated h.ending).elim⟩
  invalid := by
    rintro _ ⟨⟩
    cases outcome with
    | issued =>
      exact ⟨nofun,
        fun hInvalidated => (Issued.not_invalidated h.ending hInvalidated).elim⟩
    | invalid => exact ⟨fun _ => h.ending, fun _ => rfl⟩
  failed e hDone := by cases hDone

theorem process_safe {polling : Polling} {id : Int} {trace : Trace}
    {rest : Work (Except JobError Outcome)} (h : Leads (process polling id) trace rest) :
    Safe id trace rest := by
  have hMeets := (meets_process polling id).of_leads h
  rw [List.nil_append] at hMeets
  cases rest with
  | call c next => exact hMeets.1.safe
  | done result =>
    cases result with
    | error e => exact Broken.safe hMeets
    | ok outcome => exact Finished.safe hMeets

/-- Surroundings in which nothing fails, where the server sends one order after another. -/
def smooth (certificate : CertificateRecord) (location : Url) (chain : CertificateChain) :
    (c : IssuerCall) → List Order → c.Answer × List Order
  | .service _ (.order _) _, order :: orders => (.ok order, orders)
  | .service _ (.finalization _ _) _, order :: orders => (.ok order, orders)
  | .service _ (.certificate _) _, orders => (.ok chain, orders)
  | .service _ (.order _) _, orders | .service _ (.finalization _ _) _, orders
  | .service _ (.authorization _) _, orders | .service _ (.validation _) _, orders
  | .service _ (.challenge _) _, orders | .service _ (.newOrder _) _, orders =>
    (.error .directoryFetch, orders)
  | .store (.certificate _), orders => (.ok certificate, orders)
  | .store (.order id), orders => (.ok ⟨id, certificate.id, location⟩, orders)
  | .store (.insertOrder _ _), orders => (.ok 0, orders)
  | .store (.updateOrder _ _), orders | .store (.markOrderInvalid _), orders
  | .store (.saveCertificate _ _), orders => (.ok (), orders)
  | .store .managedCertificates, orders => (.ok [], orders)
  | .provision _ _, orders | .deprovision _ _, orders => (.ok (), orders)
  | .wait _, orders => (.elapsed, orders)
  | .clock, orders => (⟨0, 0⟩, orders)
  | .notify _, orders => ((), orders)
  | .start _, orders => (0, orders)
  | .join _, orders => (some (.ok .valid), orders)
  | .enqueue _ _, orders => (none, orders)

/-- A pending order has its authorization worked on and is ready then; after the server has called
it ready once more it is valid, and the chain that it names is saved. -/
theorem safe_of_pending_order :
    ∃ trace, Leads (process ⟨1, 20⟩ 3) trace (.done (.ok .issued)) ∧ trace.length = 15 ∧
      Safe 3 trace (.done (.ok .issued)) := by
  let url (name : String) : Url := ⟨"https", none, .segments [name], none, none⟩
  let order (status : OrderStatus) : Order := .new status [url "authorization"] (url "finalize")
  have leads := leads_transcript (smooth ⟨7, "web", ["example.org"],
    ⟨.curve .p256 1 (by decide), none⟩, .webInternal, .staging, [48]⟩ (url "order")
    ⟨["leaf"], by decide⟩) (process ⟨1, 20⟩ 3) [order .pending, order .ready, order .ready,
      (order .valid).withCertificate (url "certificate")]
  exact ⟨_, leads, rfl, process_safe leads⟩

end Enrollment.Job
