import Enrollment.Issuing.Job
import Enrollment.Proofs.Procedure.Trace

/-! # Traces of order jobs

What the calls of a job and their answers tell of it: the orders that came in and were handed on to
the store, and how the order was ended.
-/

namespace Enrollment

namespace Turn

/-- The order that the server has sent, if the call was for one. -/
def received? : Turn IssuerCall.Answer → Option Order
  | ⟨.service _ (.order _) _, .ok order⟩ => some order
  | ⟨.service _ (.finalization _ _) _, .ok order⟩ => some order
  | _ => none

/-- Whether an order has been ended. -/
def closed : Turn IssuerCall.Answer → Bool
  | ⟨.store (.saveCertificate _ _), .ok _⟩ => true
  | ⟨.store (.markOrderInvalid _), .ok _⟩ => true
  | _ => false

/-- The result of a task of a group. -/
def joined? (group : Nat) :
    Turn IssuerCall.Answer → Option (Except FulfillError AuthorizationStatus)
  | ⟨.join group', ending⟩ =>
    if group' = group then some (Authorizations.resultOf ending) else none
  | _ => none

end Turn

namespace IssuerCall

/-- The order that a call hands on to the store, and under which number. -/
def updated? : IssuerCall → Option (Int × Order)
  | .store (.updateOrder id order) => some (id, order)
  | _ => none

/-- Whether a call is to end an order. -/
def closes : IssuerCall → Bool
  | .store (.saveCertificate _ _) | .store (.markOrderInvalid _) => true
  | _ => false

/-- Whether a call neither asks for an order nor changes what is stored. -/
def isPlain : IssuerCall → Bool
  | .service _ (.order _) _ | .service _ (.finalization _ _) _ | .store (.updateOrder _ _)
  | .store (.saveCertificate _ _) | .store (.markOrderInvalid _) => false
  | _ => true

end IssuerCall

namespace Job

/-- The calls of an issuer with their answers. -/
abbrev Trace := List (Turn IssuerCall.Answer)

/-- A job begins with the records that it is made of. -/
def Loaded (job : Job) (trace : Trace) : Prop :=
  ∃ record rest, record.location = job.location ∧
    trace = ⟨.store (.order job.id), .ok record⟩ ::
      ⟨.store (.certificate record.certificate), .ok job.certificate⟩ :: rest

/-- The orders handed on to the store, with that of the call being made, are those received. -/
def Handed (id : Int) (trace : Trace) (pending : Option IssuerCall) : Prop :=
  trace.filterMap (·.call.updated?) ++ (pending.bind IssuerCall.updated?).toList =
    (trace.filterMap Turn.received?).map (id, ·)

/-- The order was received last, and has just been stored. -/
def Persisted (id : Int) (order : Order) (trace : Trace) : Prop :=
  ∃ before turn, turn.received? = some order ∧
    trace = before ++ [turn, ⟨.store (.updateOrder id order), .ok ()⟩]

/-- All authorizations of a pending order have been worked on, and not all came out valid. -/
def Unauthorized (id : Int) (trace : Trace) : Prop :=
  ∃ job order before group joins status, job.id = id ∧ Loaded job before ∧
    Persisted id order before ∧ order.status = .pending ∧
    trace = before ++ ⟨.start (order.authorizations.map job.taskFor), group⟩ :: joins ∧
    (joins.filterMap (Turn.joined? group)).length = order.authorizations.length ∧
    (Authorizations.firstError (joins.filterMap (Turn.joined? group))).bind
      Authorizations.aggregate = .ok status ∧ status ≠ .valid

/-- The last order was valid, and the chain from its address was saved, as the one ending. -/
def Issued (id : Int) (trace : Trace) : Prop :=
  ∃ job order url chain before, job.id = id ∧ Loaded job before ∧ Persisted id order before ∧
    order.status = .valid ∧ order.certificate = some url ∧
    (∀ turn ∈ before, turn.call.closes = false) ∧
    trace = before ++
      [⟨.service job.certificate.environment (.certificate url) job.certificate.key, .ok chain⟩,
        ⟨.store (.saveCertificate id chain), .ok ()⟩]

/-- The order was marked invalid with good reason, as the one ending. -/
def Invalidated (id : Int) (trace : Trace) : Prop :=
  ∃ notice before, (∀ turn ∈ before, turn.call.closes = false) ∧
    ((∃ order, Persisted id order before ∧ order.status = .invalid) ∨ Unauthorized id before) ∧
    trace = before ++ [⟨.notify notice, ()⟩, ⟨.store (.markOrderInvalid id), .ok ()⟩]

/-- A call that asks for the certificate of an order completes the ready order that was received
and stored last. -/
def Completes (id : Int) (past : Trace) (c : IssuerCall) : Prop :=
  ∀ environment url request key, c = .service environment (.finalization url request) key →
    ∃ job order, job.id = id ∧ Loaded job past ∧ Persisted id order past ∧
      order.status = .ready ∧ url = order.finalize ∧
      FinalizeRequest.ofDer job.certificate.request = .ok request ∧
      environment = job.certificate.environment ∧ key = job.certificate.key

/-- What has to hold before a call is made. -/
structure Permitted (id : Int) (past : Trace) (c : IssuerCall) : Prop where
  handed : Handed id past (some c)
  completes : Completes id past c

/-- What a job that has failed leaves behind. -/
structure Broken (id : Int) (past : Trace) : Prop where
  handed : Handed id past none
  unclosed : ∀ turn ∈ past, turn.closed = false

structure Finished (id : Int) (past : Trace) (outcome : Outcome) : Prop where
  handed : Handed id past none
  ending : match outcome with
    | .issued => Issued id past
    | .invalid => Invalidated id past

/-- A job that is under way and has nothing left to hand on. -/
structure Open (job : Job) (past : Trace) : Prop where
  loaded : Loaded job past
  handed : Handed job.id past none
  unclosed : ∀ turn ∈ past, turn.call.closes = false

/-- A job that has just stored an order. -/
structure Held (job : Job) (order : Order) (past : Trace) : Prop extends Open job past where
  persisted : Persisted job.id order past

end Job

theorem Turn.closed_of_closes {turn : Turn IssuerCall.Answer} (h : turn.call.closes = false) :
    turn.closed = false := by
  unfold Turn.closed
  split
  · cases h
  · cases h
  · rfl

theorem Turn.received?_of_isPlain {turn : Turn IssuerCall.Answer} (h : turn.call.isPlain = true) :
    turn.received? = none := by
  unfold Turn.received?
  split
  · cases h
  · cases h
  · rfl

theorem IssuerCall.updated?_of_isPlain {c : IssuerCall} (h : c.isPlain = true) :
    c.updated? = none := by
  unfold IssuerCall.updated?
  split
  · cases h
  · rfl

theorem IssuerCall.closes_of_isPlain {c : IssuerCall} (h : c.isPlain = true) :
    c.closes = false := by
  unfold IssuerCall.closes
  split
  · cases h
  · cases h
  · rfl

namespace Job

theorem Loaded.append {job : Job} {past later : Trace} (h : Loaded job past) :
    Loaded job (past ++ later) := by
  obtain ⟨record, rest, hLocation, rfl⟩ := h
  exact ⟨record, rest ++ later, hLocation, rfl⟩

theorem filterMap_concat {α β : Type} (f : α → Option β) (l : List α) (a : α) :
    (l ++ [a]).filterMap f = l.filterMap f ++ (f a).toList := by
  rw [List.filterMap_append, List.filterMap_cons]
  cases f a <;> rfl

namespace Handed

variable {id : Int} {past : Trace} {turn : Turn IssuerCall.Answer} {c : IssuerCall} {order : Order}

theorem permit (h : Handed id past none) (hUpdated : c.updated? = none) :
    Handed id past (some c) := by
  unfold Handed at h ⊢
  rw [Option.bind_some, hUpdated]
  exact h

theorem permitted (h : Handed id past none) (hUpdated : c.updated? = none)
    (hFinal : ∀ environment url request key,
      c ≠ .service environment (.finalization url request) key) : Permitted id past c where
  handed := h.permit hUpdated
  completes environment url request key hCall := absurd hCall (hFinal environment url request key)

theorem snoc (h : Handed id past (some turn.call)) (hReceived : turn.received? = none) :
    Handed id (past ++ [turn]) none := by
  unfold Handed at h ⊢
  rw [filterMap_concat, filterMap_concat, hReceived, Option.toList_none, List.append_nil, ← h]
  exact List.append_nil _

/-- An order that has been received is what is to be handed on next. -/
theorem receive (h : Handed id past none) (hUpdated : turn.call.updated? = none)
    (hReceived : turn.received? = some order) :
    Handed id (past ++ [turn]) (some (.store (.updateOrder id order))) := by
  unfold Handed at h ⊢
  rw [filterMap_concat, filterMap_concat, hUpdated, hReceived, Option.toList_none, List.append_nil,
    List.map_append, ← h, Option.bind_none, Option.toList_none, List.append_nil]
  rfl

end Handed

namespace Open

variable {job : Job} {past : Trace} {c : IssuerCall}

theorem broken (h : Open job past) : Broken job.id past where
  handed := h.handed
  unclosed turn hMem := Turn.closed_of_closes (h.unclosed turn hMem)

theorem permitted_plain (h : Open job past) (hPlain : c.isPlain = true) :
    Permitted job.id past c := by
  refine h.handed.permitted (IssuerCall.updated?_of_isPlain hPlain) ?_
  rintro environment url request key rfl
  cases hPlain

theorem unclosed_snoc (h : Open job past) {turn : Turn IssuerCall.Answer}
    (hTurn : turn.call.closes = false) :
    ∀ other ∈ past ++ [turn], other.call.closes = false := by
  intro other hMem
  rcases List.mem_append.mp hMem with hOld | hNew
  · exact h.unclosed other hOld
  · rw [List.mem_singleton.mp hNew]
    exact hTurn

theorem snoc (h : Open job past) {turn : Turn IssuerCall.Answer}
    (hUpdated : turn.call.updated? = none) (hReceived : turn.received? = none)
    (hCloses : turn.call.closes = false) : Open job (past ++ [turn]) where
  loaded := h.loaded.append
  handed := (h.handed.permit hUpdated).snoc hReceived
  unclosed := h.unclosed_snoc hCloses

theorem plain (h : Open job past) {turn : Turn IssuerCall.Answer}
    (hPlain : turn.call.isPlain = true) : Open job (past ++ [turn]) :=
  h.snoc (IssuerCall.updated?_of_isPlain hPlain) (Turn.received?_of_isPlain hPlain)
    (IssuerCall.closes_of_isPlain hPlain)

end Open

end Job

end Enrollment
