import Enrollment.Proofs.Issuing.JobSafety
import Enrollment.Proofs.Procedure.Completion

/-! # Bounds of order jobs

However a server leads a job about, its polling bounds how much the job does. The loop has no
measure of its own: a ready order is finalized without a wait, but only an order that was fetched,
and an order is fetched after a wait or, once, after its authorizations were fulfilled. So the costs
of all parts are added up along the recursion on the attempts that are left.
-/

namespace Enrollment

/-- The kinds of calls whose number is bounded by polling. -/
inductive CallKind where
  | wait
  | fetch
  | finalization
  | fulfillment
  deriving DecidableEq

namespace IssuerCall

def kind? : IssuerCall → Option CallKind
  | .wait _ => some .wait
  | .service _ (.order _) _ => some .fetch
  | .service _ (.finalization _ _) _ => some .finalization
  | .start _ => some .fulfillment
  | _ => none

def taskCount : IssuerCall → Nat
  | .start tasks => tasks.length
  | _ => 0

end IssuerCall

namespace Turn

/-- A wait that lasted as long as it should. -/
def elapsed : Turn IssuerCall.Answer → Bool
  | ⟨.wait _, .elapsed⟩ => true
  | _ => false

def cutShort : Turn IssuerCall.Answer → Bool
  | ⟨.wait _, .shutdown⟩ => true
  | _ => false

theorem elapsed_eq_false {turn : Turn IssuerCall.Answer} (h : turn.call.kind? ≠ some .wait) :
    turn.elapsed = false := by
  unfold elapsed
  split
  · exact absurd rfl h
  · rfl

theorem cutShort_eq_false {turn : Turn IssuerCall.Answer} (h : turn.call.kind? ≠ some .wait) :
    turn.cutShort = false := by
  unfold cutShort
  split
  · exact absurd rfl h
  · rfl

end Turn

namespace Job

open Procedure

def callsOf (kind : CallKind) (trace : Trace) : Nat :=
  trace.countP fun turn => turn.call.kind? = some kind

def tasksStarted : Trace → Nat
  | [] => 0
  | turn :: trace => turn.call.taskCount + tasksStarted trace

theorem callsOf_append (kind : CallKind) (s t : Trace) :
    callsOf kind (s ++ t) = callsOf kind s + callsOf kind t := List.countP_append

theorem tasksStarted_append (s t : Trace) :
    tasksStarted (s ++ t) = tasksStarted s + tasksStarted t := by
  induction s with
  | nil => exact (Nat.zero_add _).symm
  | cons turn s ih => rw [List.cons_append, tasksStarted, ih, tasksStarted, Nat.add_assoc]

/-- How often work may call, by kinds and in all. -/
structure Cost where
  of : CallKind → Nat
  calls : Nat

namespace Cost

instance : Add Cost where
  add a b := ⟨fun kind => a.of kind + b.of kind, a.calls + b.calls⟩

instance : LE Cost where
  le a b := (∀ kind, a.of kind ≤ b.of kind) ∧ a.calls ≤ b.calls

def ofCall (c : IssuerCall) : Cost := ⟨fun kind => if c.kind? = some kind then 1 else 0, 1⟩

/-- So many calls, none of them of a kind that is counted. -/
def plain (calls : Nat) : Cost := ⟨fun _ => 0, calls⟩

/-- One call of a kind, and so many in all. -/
def once (kind : CallKind) (calls : Nat) : Cost := ⟨fun k => if kind = k then 1 else 0, calls⟩

/-- What there is still to do when so many waits are left. -/
def polling (left : Nat) (fulfilled : Bool) : Cost where
  of
    | .wait => left
    | .fetch | .finalization => left + (!fulfilled).toNat
    | .fulfillment => (!fulfilled).toNat
  calls := 5 * left + 2 + 5 * (!fulfilled).toNat

def whole (attempts : Nat) : Cost where
  of
    | .wait => attempts
    | .fetch | .finalization => attempts + 2
    | .fulfillment => 1
  calls := 5 * attempts + 13

@[simp] theorem add_of (a b : Cost) (kind : CallKind) : (a + b).of kind = a.of kind + b.of kind :=
  rfl

@[simp] theorem add_calls (a b : Cost) : (a + b).calls = a.calls + b.calls := rfl

theorem le_add_right (a b : Cost) : a ≤ a + b :=
  ⟨fun _ => Nat.le_add_right _ _, Nat.le_add_right _ _⟩

theorem le_add_left (a b : Cost) : a ≤ b + a :=
  ⟨fun _ => Nat.le_add_left _ _, Nat.le_add_left _ _⟩

theorem plain_le_polling (left : Nat) (fulfilled : Bool) : plain 2 ≤ polling left fulfilled := by
  refine ⟨fun _ => Nat.zero_le _, ?_⟩
  show 2 ≤ 5 * left + 2 + 5 * (!fulfilled).toNat
  omega

/-- Fulfilling authorizations once makes room for one more order to be fetched and finalized. -/
theorem fulfill_le_polling (left : Nat) :
    once .fulfillment 1 + (once .fetch 2 + (once .finalization 2 + polling left true)) ≤
      polling left false := by
  refine ⟨fun kind => ?_, ?_⟩
  · cases kind <;> simp [once, polling] <;> omega
  · simp only [add_calls, once, polling, Bool.not_true, Bool.not_false, Bool.toNat_true,
      Bool.toNat_false]
    omega

/-- With every wait an order is fetched, and finalized if it is ready. -/
theorem poll_le_polling (ms left : Nat) (fulfilled : Bool) :
    ofCall (.wait ms) + (once .fetch 2 + (once .finalization 2 + polling left fulfilled)) ≤
      polling (left + 1) fulfilled := by
  refine ⟨fun kind => ?_, ?_⟩
  · cases kind <;> simp [ofCall, IssuerCall.kind?, once, polling] <;> omega
  · simp only [add_calls, ofCall, once, polling]
    omega

theorem load_le_whole (attempts : Nat) :
    plain 2 + (once .fetch 2 + (once .finalization 2 + polling attempts false)) ≤
      whole attempts := by
  refine ⟨fun kind => ?_, ?_⟩
  · cases kind <;> simp [plain, once, polling, whole] <;> omega
  · simp only [add_calls, plain, once, polling, whole, Bool.not_false, Bool.toNat_true]
    omega

end Cost

/-- A trace stays within a cost. Each task that it starts may take two calls more. -/
structure Within (cost : Cost) (trace : Trace) : Prop where
  kinds : ∀ kind, callsOf kind trace ≤ cost.of kind
  calls : trace.length ≤ cost.calls + 2 * tasksStarted trace

namespace Within

variable {a b : Cost} {s t : Trace}

theorem nil (cost : Cost) : Within cost [] := ⟨fun _ => Nat.zero_le _, Nat.zero_le _⟩

theorem append (hs : Within a s) (ht : Within b t) : Within (a + b) (s ++ t) where
  kinds kind := callsOf_append kind s t ▸ Nat.add_le_add (hs.kinds kind) (ht.kinds kind)
  calls := by
    have hFirst := hs.calls
    have hNext := ht.calls
    show (s ++ t).length ≤ a.calls + b.calls + 2 * tasksStarted (s ++ t)
    rw [List.length_append, tasksStarted_append]
    omega

theorem single (turn : Turn IssuerCall.Answer) : Within (.ofCall turn.call) [turn] where
  kinds kind := by simp [callsOf, Cost.ofCall, List.countP_singleton]
  calls := Nat.le_add_right _ _

theorem mono (h : Within a t) (le : a ≤ b) : Within b t where
  kinds kind := Nat.le_trans (h.kinds kind) (le.1 kind)
  calls := Nat.le_trans h.calls (Nat.add_le_add_right le.2 _)

end Within

/-- What work without waits leaves behind. -/
structure Calm {α : Type} (cost : Cost) (trace : Trace) (result : Except JobError α) : Prop
    extends Within cost trace where
  waitless : ∀ turn ∈ trace, turn.call.kind? ≠ some .wait
  settled : ∀ attempts, result ≠ .error (.unsettled attempts)

/-- What work leaves behind that may wait so many times more. Polling ends for want of attempts when
all its waits are over; a wait that is cut short is the last that work does. -/
structure Paced (attempts left : Nat) (cost : Cost) (trace : Trace)
    (result : Except JobError Outcome) : Prop extends Within cost trace where
  unsettled : ∀ m, result = .error (.unsettled m) →
    m = attempts ∧ trace.countP Turn.elapsed = left
  shutdown : (∀ turn ∈ trace, turn.cutShort = false) ∨
    result = .error .shutdown ∧ ∃ before ms, trace = before ++ [⟨.wait ms, .shutdown⟩] ∧
      ∀ turn ∈ before, turn.cutShort = false

section

variable {α β : Type} {a b cost : Cost} {attempts left : Nat} {before after : Trace}
  {result : Except JobError Outcome}

theorem Calm.paced (h : Calm cost before result) : Paced attempts left cost before result where
  toWithin := h.toWithin
  unsettled m hResult := absurd hResult (h.settled m)
  shutdown := .inl fun turn hMem => Turn.cutShort_eq_false (h.waitless turn hMem)

theorem Calm.append {first : α} {second : Except JobError β}
    (h : Calm a before (.ok first)) (hNext : Calm b after second) :
    Calm (a + b) (before ++ after) second where
  toWithin := h.toWithin.append hNext.toWithin
  waitless turn hMem := by
    rcases List.mem_append.mp hMem with hFirst | hSecond
    · exact h.waitless turn hFirst
    · exact hNext.waitless turn hSecond
  settled := hNext.settled

theorem Calm.then {first : α} (h : Calm a before (.ok first))
    (hNext : Paced attempts left b after result) :
    Paced attempts left (a + b) (before ++ after) result where
  toWithin := h.toWithin.append hNext.toWithin
  unsettled m hResult := by
    obtain ⟨hAttempts, hElapsed⟩ := hNext.unsettled m hResult
    have hNone : before.countP Turn.elapsed = 0 := by
      refine List.countP_eq_zero.mpr fun turn hMem => ?_
      rw [Turn.elapsed_eq_false (h.waitless turn hMem)]
      exact Bool.false_ne_true
    rw [List.countP_append, hNone, hElapsed, Nat.zero_add]
    exact ⟨hAttempts, rfl⟩
  shutdown := by
    have hBefore (turn) (hMem : turn ∈ before) : turn.cutShort = false :=
      Turn.cutShort_eq_false (h.waitless turn hMem)
    rcases hNext.shutdown with hQuiet | ⟨hResult, rest, ms, rfl, hRest⟩
    · refine .inl fun turn hMem => ?_
      exact (List.mem_append.mp hMem).elim (hBefore turn) (hQuiet turn)
    · refine .inr ⟨hResult, before ++ rest, ms, (List.append_assoc _ _ _).symm, ?_⟩
      exact fun turn hMem => (List.mem_append.mp hMem).elim (hBefore turn) (hRest turn)

theorem Paced.mono (h : Paced attempts left a before result) (le : a ≤ b) :
    Paced attempts left b before result :=
  { h with toWithin := h.toWithin.mono le }

theorem Paced.wait (h : Paced attempts left cost after result) (ms : Nat) :
    Paced attempts (left + 1) (.ofCall (.wait ms) + cost) (⟨.wait ms, .elapsed⟩ :: after)
      result where
  toWithin := (Within.single ⟨.wait ms, .elapsed⟩).append h.toWithin
  unsettled m hResult := by
    obtain ⟨hAttempts, hElapsed⟩ := h.unsettled m hResult
    rw [List.countP_cons_of_pos rfl, hElapsed]
    exact ⟨hAttempts, rfl⟩
  shutdown := by
    rcases h.shutdown with hQuiet | ⟨hResult, rest, ms', rfl, hRest⟩
    · exact .inl (List.forall_mem_cons.mpr ⟨rfl, hQuiet⟩)
    · exact .inr ⟨hResult, ⟨.wait ms, .elapsed⟩ :: rest, ms', rfl,
        List.forall_mem_cons.mpr ⟨rfl, hRest⟩⟩

end

def Quiet {α : Type} (cost : Cost) (work : Attempt JobError α) : Prop :=
  ∀ trace result, Runs work.run trace result → Calm cost trace result

def Polls (attempts left : Nat) (cost : Cost) (work : Attempt JobError Outcome) : Prop :=
  ∀ trace result, Runs work.run trace result → Paced attempts left cost trace result

section

variable {α β : Type} {a b cost : Cost} {attempts left : Nat} {p : Attempt JobError α}

theorem Calm.failed {e : JobError} {trace : Trace}
    (h : Calm a trace (.error e : Except JobError α)) (b : Cost) :
    Calm (a + b) trace (.error e : Except JobError β) where
  toWithin := h.toWithin.mono (Cost.le_add_right a b)
  waitless := h.waitless
  settled m hResult := h.settled m (by rw [Except.error.inj hResult])

theorem Calm.mono {trace : Trace} {result : Except JobError α} (h : Calm a trace result)
    (le : a ≤ b) : Calm b trace result := { h with toWithin := h.toWithin.mono le }

theorem Quiet.mono (h : Quiet a p) (le : a ≤ b) : Quiet b p :=
  fun trace result run => (h trace result run).mono le

theorem Quiet.bind {f : α → Attempt JobError β} (h : Quiet a p) (hNext : ∀ x, Quiet b (f x)) :
    Quiet (a + b) (p >>= f) := by
  intro trace result run
  rcases run.attempt with ⟨e, hFails, rfl⟩ | ⟨before, x, after, rfl, hFirst, hRest⟩
  · exact (h _ _ hFails).failed b
  · exact (h _ _ hFirst).append (hNext x _ _ hRest)

theorem Quiet.pure (x : α) : Quiet (.plain 0) (pure x) := by
  intro trace result run
  obtain ⟨rfl, rfl⟩ := runs_done_iff.mp run
  exact ⟨.nil _, by simp, nofun⟩

theorem Quiet.polls {p : Attempt JobError Outcome} (h : Quiet cost p) :
    Polls attempts left cost p := fun trace result run => (h trace result run).paced

theorem Quiet.then {f : α → Attempt JobError Outcome} (h : Quiet a p)
    (hNext : ∀ x, Polls attempts left b (f x)) : Polls attempts left (a + b) (p >>= f) := by
  intro trace result run
  rcases run.attempt with ⟨e, hFails, rfl⟩ | ⟨before, x, after, rfl, hFirst, hRest⟩
  · exact ((h _ _ hFails).failed b).paced
  · exact (h _ _ hFirst).then (hNext x _ _ hRest)

theorem Polls.mono {p : Attempt JobError Outcome} (h : Polls attempts left a p) (le : a ≤ b) :
    Polls attempts left b p := fun trace result run => (h trace result run).mono le

theorem calm_turn {c : IssuerCall} {result : Except JobError α} (answer : c.Answer)
    (hWait : c.kind? ≠ some .wait) (hResult : ∀ m, result ≠ .error (.unsettled m)) :
    Calm (.ofCall c) [⟨c, answer⟩] result where
  toWithin := .single ⟨c, answer⟩
  waitless _ hMem := List.mem_singleton.mp hMem ▸ hWait
  settled := hResult

theorem Quiet.throw {e : JobError} (h : ∀ m, e ≠ .unsettled m) (cost : Cost) :
    Quiet cost (throw e : Attempt JobError α) := by
  intro trace result run
  obtain ⟨rfl, rfl⟩ := runs_done_iff.mp run
  exact ⟨.nil _, by simp, fun m hResult => h m (Except.error.inj hResult)⟩

end

section

variable {job : Job} {attempts left : Nat}

theorem quiet_askStore (request : StoreRequest) : Quiet (.plain 1) (askStore request) := by
  intro trace result run
  obtain ⟨answer, rest, rfl, hRest⟩ := runs_call_iff.mp run
  obtain ⟨rfl, rfl⟩ := runs_done_iff.mp hRest
  refine calm_turn answer (by simp [IssuerCall.kind?]) fun m hResult => ?_
  cases answer <;> cases hResult

theorem quiet_askService (request : ServiceRequest) :
    Quiet (.ofCall (.service job.certificate.environment request job.certificate.key))
      (job.askService request) := by
  intro trace result run
  obtain ⟨answer, rest, rfl, hRest⟩ := runs_call_iff.mp run
  obtain ⟨rfl, rfl⟩ := runs_done_iff.mp hRest
  refine calm_turn answer (by cases request <;> simp [IssuerCall.kind?]) fun m hResult => ?_
  cases answer <;> cases hResult

theorem quiet_receive {a : Cost} {request : Attempt JobError Order} (h : Quiet a request) :
    Quiet (a + .plain 1) (job.receive request) :=
  h.bind fun order => (quiet_askStore _).bind fun _ => Quiet.pure order

theorem quiet_fetch : Quiet (.once .fetch 2) job.fetch := by
  refine Quiet.mono (quiet_receive (quiet_askService _)) ?_
  exact ⟨fun kind => by cases kind <;> exact Nat.le_refl _, Nat.le_refl 2⟩

theorem quiet_finalize (order : Order) : Quiet (.once .finalization 2) (job.finalize order) := by
  unfold finalize
  cases FinalizeRequest.ofDer job.certificate.request with
  | error e => exact Quiet.throw (by intro m h; cases h) _
  | ok request =>
    refine Quiet.mono (quiet_receive (quiet_askService _)) ?_
    exact ⟨fun kind => by cases kind <;> exact Nat.le_refl _, Nat.le_refl 2⟩

theorem quiet_save (order : Order) : Quiet (.plain 2) (job.save order) := by
  unfold save
  cases order.certificate with
  | none => exact Quiet.throw (by intro m h; cases h) _
  | some url =>
    exact Quiet.bind (quiet_askService (.certificate url)) fun chain =>
      (quiet_askStore (.saveCertificate job.id chain)).bind fun _ => Quiet.pure Outcome.issued

theorem quiet_notify (notice : Notice) : Quiet (.plain 1) (.notify notice) := by
  intro trace result run
  obtain ⟨answer, rest, rfl, hRest⟩ := runs_call_iff.mp run
  obtain ⟨rfl, rfl⟩ := runs_done_iff.mp hRest
  exact calm_turn answer (by simp [IssuerCall.kind?]) (by simp)

theorem quiet_giveUp (notice : Notice) : Quiet (.plain 2) (job.giveUp notice) := by
  exact (quiet_notify notice).bind fun _ =>
    (quiet_askStore (.markOrderInvalid job.id)).bind fun _ => Quiet.pure Outcome.invalid

/-- The tasks that are joined take a call each, and one more to tell of a failure. -/
theorem runs_joinAll (group count : Nat) {trace : Trace}
    {results : List (Except FulfillError AuthorizationStatus)}
    (run : Runs (Authorizations.joinAll group count) trace results) :
    (∀ turn ∈ trace, turn.call.kind? = none) ∧ trace.length ≤ 2 * count := by
  induction count generalizing trace results with
  | zero =>
    obtain ⟨rfl, -⟩ := runs_done_iff.mp run
    exact ⟨by simp, Nat.le_refl 0⟩
  | succ count ih =>
    obtain ⟨ending, rest, rfl, hRest⟩ := runs_call_iff.mp run
    have hNext {rest : Trace} (hRest : Runs ((Authorizations.joinAll group count).bind fun others =>
        .done (Authorizations.resultOf ending :: others)) rest results) :
        (∀ turn ∈ rest, turn.call.kind? = none) ∧ rest.length ≤ 2 * count := by
      obtain ⟨before, others, after, rfl, hJoins, hDone⟩ := runs_bind_iff.mp hRest
      obtain ⟨rfl, -⟩ := runs_done_iff.mp hDone
      rw [List.append_nil]
      exact ih hJoins
    dsimp only [Procedure.done_bind] at hRest
    split at hRest
    · obtain ⟨answer, later, rfl, hLater⟩ := runs_call_iff.mp hRest
      obtain ⟨hKinds, hLength⟩ := hNext hLater
      refine ⟨?_, by simp only [List.length_cons]; omega⟩
      exact List.forall_mem_cons.mpr ⟨rfl, List.forall_mem_cons.mpr ⟨rfl, hKinds⟩⟩
    · obtain ⟨hKinds, hLength⟩ := hNext hRest
      exact ⟨List.forall_mem_cons.mpr ⟨rfl, hKinds⟩, by simp only [List.length_cons]; omega⟩

theorem quiet_fulfillments (tasks : List AuthorizationTask) :
    Quiet (.once .fulfillment 1) (.ofWork (Authorizations.fulfill tasks) .fulfill) := by
  intro trace result run
  obtain ⟨before, ending, after, rfl, hTasks, hDone⟩ := runs_bind_iff.mp run
  obtain ⟨rfl, rfl⟩ := runs_done_iff.mp hDone
  obtain ⟨group, rest, rfl, hRest⟩ := runs_call_iff.mp hTasks
  obtain ⟨joins, results, last, rfl, hJoins, hLast⟩ :=
    (runs_bind_iff (p := Authorizations.joinAll group tasks.length)).mp hRest
  obtain ⟨rfl, -⟩ := runs_done_iff.mp hLast
  obtain ⟨hKinds, hLength⟩ := runs_joinAll group tasks.length hJoins
  rw [List.append_nil, List.append_nil]
  refine ⟨⟨fun kind => ?_, ?_⟩, ?_, fun m hResult => by cases ending <;> cases hResult⟩
  · have hNone : callsOf kind joins = 0 := by
      refine List.countP_eq_zero.mpr fun turn hMem => ?_
      simp [hKinds turn hMem]
    have hStart := (Within.single ⟨.start tasks, group⟩).kinds kind
    rw [← List.singleton_append, callsOf_append, hNone, Nat.add_zero]
    cases kind <;> exact hStart
  · show joins.length + 1 ≤ 1 + 2 * (tasks.length + tasksStarted joins)
    omega
  · refine List.forall_mem_cons.mpr ⟨by simp [IssuerCall.kind?], fun turn hMem => ?_⟩
    rw [hKinds turn hMem]
    exact nofun

end

section

variable {job : Job} {attempts left : Nat} {cost : Cost}

theorem polls_fulfill {next : Attempt JobError Outcome} (order : Order)
    (hEnding : .plain 2 ≤ cost) (hNext : Polls attempts left cost next) :
    Polls attempts left (.once .fulfillment 1 + cost) (job.fulfill next order) := by
  refine (quiet_fulfillments _).then fun status => ?_
  split
  · exact hNext
  · exact (quiet_giveUp _).polls.mono hEnding

/-- Between two waits an order is finalized once at most. -/
theorem polls_advance {onPending : Order → Attempt JobError Outcome}
    {wait : Attempt JobError Outcome} (order : Order) (hEnding : .plain 2 ≤ cost)
    (hPending : ∀ order, Polls attempts left cost (onPending order))
    (hWait : Polls attempts left cost wait) :
    Polls attempts left (.once .finalization 2 + cost) (job.advance onPending wait order) := by
  have hLater : cost ≤ .once .finalization 2 + cost := Cost.le_add_left _ _
  have hSave (order : Order) : Polls attempts left cost (job.save order) :=
    (quiet_save order).polls.mono hEnding
  have hGiveUp : Polls attempts left cost (job.giveUp .orderInvalid) :=
    (quiet_giveUp _).polls.mono hEnding
  unfold advance
  cases order.status with
  | pending => exact (hPending order).mono hLater
  | processing => exact hWait.mono hLater
  | valid => exact (hSave order).mono hLater
  | invalid => exact hGiveUp.mono hLater
  | ready =>
    refine (quiet_finalize order).then fun finalized => ?_
    cases finalized.status with
    | pending => exact hPending finalized
    | processing | ready => exact hWait
    | valid => exact hSave finalized
    | invalid => exact hGiveUp

theorem polls_settle {wait : Bool → Attempt JobError Outcome} (fulfilled : Bool) (order : Order)
    (hWait : ∀ fulfilled, Polls attempts left (.polling left fulfilled) (wait fulfilled)) :
    Polls attempts left (.once .finalization 2 + .polling left fulfilled)
      (job.settle wait fulfilled order) := by
  have hSettled (order : Order) : Polls attempts left
      (.once .finalization 2 + .polling left true)
      (job.advance (fun _ => wait true) (wait true) order) :=
    polls_advance order (Cost.plain_le_polling _ _) (fun _ => hWait true) (hWait true)
  cases fulfilled with
  | true => exact hSettled order
  | false =>
    refine polls_advance order (Cost.plain_le_polling _ _) (fun order => ?_) (hWait false)
    refine Polls.mono (polls_fulfill order ?_ (quiet_fetch.then hSettled))
      (Cost.fulfill_le_polling left)
    exact ⟨fun _ => Nat.zero_le _, Nat.le_add_right 2 _⟩

theorem polls_settleFetched {wait : Bool → Attempt JobError Outcome} (fulfilled : Bool)
    (hWait : ∀ fulfilled, Polls attempts left (.polling left fulfilled) (wait fulfilled)) :
    Polls attempts left
      (.once .fetch 2 + (.once .finalization 2 + .polling left fulfilled))
      (do job.settle wait fulfilled (← job.fetch)) :=
  quiet_fetch.then fun order => polls_settle fulfilled order hWait

theorem polls_poll (polling : Polling) (left : Nat) (fulfilled : Bool) :
    Polls polling.attempts left (.polling left fulfilled) (job.poll polling left fulfilled) := by
  induction left generalizing fulfilled with
  | zero =>
    intro trace result run
    obtain ⟨rfl, rfl⟩ := runs_done_iff.mp run
    refine ⟨.nil _, ?_, .inl (by simp)⟩
    rintro _ ⟨⟩
    exact ⟨rfl, rfl⟩
  | succ left ih =>
    intro trace result run
    obtain ⟨waited, rest, rfl, hRest⟩ := runs_call_iff.mp run
    cases waited with
    | shutdown =>
      obtain ⟨rfl, rfl⟩ := runs_done_iff.mp hRest
      refine ⟨?_, nofun, .inr ⟨rfl, [], _, rfl, by simp⟩⟩
      exact (Within.single ⟨.wait polling.interval, .shutdown⟩).mono
        (⟨fun kind => by cases kind <;> simp [Cost.ofCall, IssuerCall.kind?, Cost.polling], by
          simp [Cost.ofCall, Cost.polling]; omega⟩)
    | elapsed =>
      exact ((polls_settleFetched fulfilled ih _ _ hRest).wait polling.interval).mono
        (Cost.poll_le_polling _ _ _)

end

theorem quiet_load (id : Int) : Quiet (.plain 2) (load id) :=
  (quiet_askStore (.order id)).bind fun order =>
    (quiet_askStore (.certificate order.certificate)).bind fun certificate =>
      Quiet.pure (⟨id, order.location, certificate⟩ : Job)

theorem polls_process (polling : Polling) (id : Int) {trace : Trace}
    {result : Except JobError Outcome} (run : Runs (process polling id) trace result) :
    Paced polling.attempts polling.attempts (.whole polling.attempts) trace result := by
  have hRun (job : Job) : Polls polling.attempts polling.attempts _ (job.run polling) :=
    polls_settleFetched false (polls_poll polling polling.attempts)
  exact ((quiet_load id).then hRun trace result run).mono (Cost.load_le_whole _)

/-- Shutdown is signalled when so many calls have been answered: from then on it is what a wait
finds, whether it has begun before or not. -/
def Heeds (moment : Nat) (turns : Trace) : Prop :=
  ∀ i ms waited, turns[i]? = some ⟨.wait ms, waited⟩ →
    ∃ elapsed, Waited.poll? (moment ≤ i) elapsed = some waited

/-- How much a job does in all, and how it ends for want of attempts or at shutdown. -/
structure Bounded (attempts : Nat) (turns : Trace) (result : Except JobError Outcome) : Prop where
  waits : callsOf .wait turns ≤ attempts
  fetches : callsOf .fetch turns ≤ attempts + 2
  finalizations : callsOf .finalization turns ≤ attempts + 2
  fulfillments : callsOf .fulfillment turns ≤ 1
  length : turns.length ≤ 5 * attempts + 13 + 2 * tasksStarted turns
  unsettled : ∀ m, result = .error (.unsettled m) →
    m = attempts ∧ turns.countP Turn.elapsed = attempts
  shutdown : ∀ moment, Heeds moment turns → ∀ i ms waited, moment ≤ i →
    turns[i]? = some ⟨.wait ms, waited⟩ →
    waited = .shutdown ∧ i + 1 = turns.length ∧ result = .error .shutdown

theorem Paced.bounded {attempts : Nat} {trace : Trace} {result : Except JobError Outcome}
    (h : Paced attempts attempts (.whole attempts) trace result) :
    Bounded attempts trace result where
  waits := h.kinds .wait
  fetches := h.kinds .fetch
  finalizations := h.kinds .finalization
  fulfillments := h.kinds .fulfillment
  length := h.calls
  unsettled := h.unsettled
  shutdown moment hHeeds i ms waited hMoment hTurn := by
    obtain ⟨elapsed, hWaited⟩ := hHeeds i ms waited hTurn
    rw [Waited.poll?, if_pos (decide_eq_true hMoment)] at hWaited
    obtain rfl := Option.some.inj hWaited
    have hMem := List.mem_of_getElem? hTurn
    rcases h.shutdown with hQuiet | ⟨hResult, before, ms', rfl, hBefore⟩
    · cases hQuiet _ hMem
    · refine ⟨rfl, ?_, hResult⟩
      rw [List.length_append, List.length_singleton]
      have hlt := (List.getElem?_eq_some_iff.mp hTurn).1
      rw [List.length_append, List.length_singleton] at hlt
      by_cases hi : i < before.length
      · rw [List.getElem?_append_left hi] at hTurn
        cases hBefore _ (List.mem_of_getElem? hTurn)
      · omega

/-- From wherever a job has come to, it comes to its end whatever it is answered, and when it has
done so, it has kept to its bounds. -/
theorem process_bounded (polling : Polling) (id : Int) {trace : Trace}
    {rest : Work (Except JobError Outcome)} (h : Leads (process polling id) trace rest) :
    (∀ answers : Trace → (c : IssuerCall) → c.Answer,
      ∃ later result, Runs rest later result ∧ Follows answers trace later) ∧
    ∀ later result, Runs rest later result → Bounded polling.attempts (trace ++ later) result :=
  ⟨fun answers => exists_runs answers trace rest,
    fun _ _ run => (polls_process polling id (h.trans run)).bounded⟩

/-- A server that calls an order ready for ever, and pending once after it was finalized, has a job
do all that its polling allows. -/
theorem bounded_of_stubborn_server :
    ∃ trace, Runs (process ⟨2, 20⟩ 3) trace (.error (.unsettled 2)) ∧
      callsOf .wait trace = 2 ∧ callsOf .fetch trace = 4 ∧ callsOf .finalization trace = 4 ∧
      Bounded 2 trace (.error (.unsettled 2)) := by
  let url (name : String) : Url := ⟨"https", none, .segments [name], none, none⟩
  let order (status : OrderStatus) : Order := .new status [url "authorization"] (url "finalize")
  have run := leads_transcript (smooth ⟨7, "web", ["example.org"],
    ⟨.curve .p256 1 (by decide), none⟩, .webInternal, .staging, [48]⟩ (url "order")
    ⟨["leaf"], by decide⟩) (process ⟨2, 20⟩ 3)
    (order .ready :: order .pending :: List.replicate 6 (order .ready))
  exact ⟨_, run, rfl, rfl, rfl, (process_bounded ⟨2, 20⟩ 3 (.here _)).2 _ _ run⟩

end Job

end Enrollment
