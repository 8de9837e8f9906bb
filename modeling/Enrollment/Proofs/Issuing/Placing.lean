import Mathlib.Data.List.Forall2
import Enrollment.Proofs.Issuing.Evidence
import Enrollment.Proofs.Issuing.JobTrace

/-! # Placing an order

An order is placed in four stages: the certificate is loaded, an order is asked for, what the server
made of it is stored, and it is handed in to be processed. The first stage that fails is the last.
-/

namespace Enrollment

open Procedure IssuerCall

/-- The stages in which an order is placed. -/
inductive PlacingStage where
  | loading
  | ordering
  | storing
  | queueing
  deriving DecidableEq, Repr

def PlacingStage.all : List PlacingStage := [.loading, .ordering, .storing, .queueing]

def IssuerCall.stage? : IssuerCall → Option PlacingStage
  | .store (.certificate _) => some .loading
  | .service _ (.newOrder _) _ => some .ordering
  | .store (.insertOrder _ _) => some .storing
  | .enqueue _ _ => some .queueing
  | _ => none

/-- The identifiers of a request are those of some names, one for each, in their order. -/
def NewOrder.Names (request : NewOrder) (names : List String) : Prop :=
  List.Forall₂ (fun name identifier => Identifier.ofName name = .ok identifier) names
    request.identifiers

/-- Each element of a list has a partner. -/
theorem exists_forall₂_iff {α β : Type} {R : α → β → Prop} {as : List α} :
    (∃ bs, List.Forall₂ R as bs) ↔ ∀ a ∈ as, ∃ b, R a b := by
  induction as with
  | nil => exact iff_of_true ⟨[], .nil⟩ nofun
  | cons a as ih =>
    rw [List.forall_mem_cons, ← ih]
    constructor
    · rintro ⟨_, h⟩
      cases h with
      | cons hFirst hRest => exact ⟨⟨_, hFirst⟩, _, hRest⟩
    · rintro ⟨⟨b, hFirst⟩, bs, hRest⟩
      exact ⟨b :: bs, .cons hFirst hRest⟩

namespace NewOrder

variable {names : List String} {request : NewOrder} {identifiers : List Identifier}

theorem mapM_ofName_eq_ok_iff : names.mapM Identifier.ofName = .ok identifiers ↔
    List.Forall₂ (fun name identifier => Identifier.ofName name = .ok identifier) names
      identifiers := by
  induction names generalizing identifiers with
  | nil =>
    rw [List.forall₂_nil_left_iff, List.mapM_nil]
    exact ⟨fun h => (Except.ok.inj h).symm, fun h => h ▸ rfl⟩
  | cons name names ih =>
    rw [List.mapM_cons, List.forall₂_cons_left_iff]
    constructor
    · intro h
      cases hFirst : Identifier.ofName name with
      | error e =>
        rw [hFirst] at h
        cases h
      | ok identifier =>
        cases hRest : names.mapM Identifier.ofName with
        | error e =>
          rw [hFirst, hRest] at h
          cases h
        | ok others =>
          rw [hFirst, hRest] at h
          cases h
          exact ⟨identifier, others, rfl, ih.mp hRest, rfl⟩
    · rintro ⟨identifier, others, hFirst, hRest, rfl⟩
      rw [hFirst, ih.mpr hRest]
      rfl

theorem ofNames_eq_ok_iff : ofNames names = .ok request ↔ request.Names names := by
  unfold ofNames Names
  rw [← mapM_ofName_eq_ok_iff]
  cases names.mapM Identifier.ofName with
  | error e => exact iff_of_false nofun nofun
  | ok identifiers =>
    obtain ⟨wanted, hWanted⟩ := request
    simp only [ofIdentifiers, Except.ok.injEq]
    constructor
    · intro h
      split at h
      · cases h
      · cases h
        rfl
    · rintro rfl
      rw [dif_neg hWanted]

/-- Names can be ordered if there are some and all of them are valid. -/
theorem exists_names_iff : (∃ request : NewOrder, request.Names names) ↔
    names ≠ [] ∧ ∀ name ∈ names, ∃ identifier, Identifier.ofName name = .ok identifier := by
  rw [← exists_forall₂_iff]
  constructor
  · rintro ⟨request, h⟩
    refine ⟨?_, request.identifiers, h⟩
    rintro rfl
    exact request.ne_nil (List.forall₂_nil_left_iff.mp h)
  · rintro ⟨hNames, identifiers, h⟩
    refine ⟨⟨identifiers, ?_⟩, h⟩
    rintro rfl
    exact hNames (List.forall₂_nil_right_iff.mp h)

end NewOrder

namespace Job

def loading (certificate : Int) (answer : Except StoreError CertificateRecord) :
    Turn IssuerCall.Answer := ⟨.store (.certificate certificate), answer⟩

def ordering (environment : Environment) (request : NewOrder) (key : AccountKey)
    (answer : Except ClientError Order) : Turn IssuerCall.Answer :=
  ⟨.service environment (.newOrder request) key, answer⟩

def storing (certificate : Int) (order : Order) (answer : Except StoreError Int) :
    Turn IssuerCall.Answer := ⟨.store (.insertOrder certificate order), answer⟩

def queueing (order : Int) (priority : Priority) (answer : Option Nat) :
    Turn IssuerCall.Answer := ⟨.enqueue order priority, answer⟩

section

variable {certificate id id' : Int} {order : Order} {environment : Environment}
  {request : NewOrder} {key : AccountKey} {priority priority' : Priority}

@[simp] theorem stage?_loading {answer : Except StoreError CertificateRecord} :
    (loading certificate answer).call.stage? = some .loading := rfl

@[simp] theorem stage?_ordering {answer : Except ClientError Order} :
    (ordering environment request key answer).call.stage? = some .ordering := rfl

@[simp] theorem stage?_storing {answer : Except StoreError Int} :
    (storing certificate order answer).call.stage? = some .storing := rfl

@[simp] theorem stage?_queueing {answer : Option Nat} :
    (queueing id priority answer).call.stage? = some .queueing := rfl

theorem queueing_inj {answer answer' : Option Nat} :
    queueing id priority answer = queueing id' priority' answer' ↔
      (id = id' ∧ priority = priority') ∧ answer = answer' := by
  simp [queueing]

end

/-- How an order is placed for a certificate, up to the stage that fails. -/
inductive Placed (certificate : Int) : Trace → Except JobError Int → Prop where
  | unloaded (e : StoreError) :
    Placed certificate [loading certificate (.error e)] (.error (.store e))
  | unnamed {record : CertificateRecord} {e : NewOrderError}
    (h : NewOrder.ofNames record.identifiers = .error e) :
    Placed certificate [loading certificate (.ok record)] (.error (.identifiers e))
  | unordered {record : CertificateRecord} {request : NewOrder}
    (h : NewOrder.ofNames record.identifiers = .ok request) (e : ClientError) :
    Placed certificate
      [loading certificate (.ok record), ordering record.environment request record.key (.error e)]
      (.error (.service e))
  | unstored {record : CertificateRecord} {request : NewOrder}
    (h : NewOrder.ofNames record.identifiers = .ok request) (order : Order) (e : StoreError) :
    Placed certificate
      [loading certificate (.ok record), ordering record.environment request record.key (.ok order),
        storing certificate order (.error e)]
      (.error (.store e))
  | stored {record : CertificateRecord} {request : NewOrder}
    (h : NewOrder.ofNames record.identifiers = .ok request) (order : Order) (id : Int) :
    Placed certificate
      [loading certificate (.ok record), ordering record.environment request record.key (.ok order),
        storing certificate order (.ok id)]
      (.ok id)

/-- An order that has been placed is handed in, for a ticket unless the queue is closed. -/
inductive Submitted (certificate : Int) (priority : Priority) :
    Trace → Except JobError Ticket → Prop where
  | failed {trace : Trace} {e : JobError} (h : Placed certificate trace (.error e)) :
    Submitted certificate priority trace (.error e)
  | refused {trace : Trace} {id : Int} (h : Placed certificate trace (.ok id)) :
    Submitted certificate priority (trace ++ [queueing id priority none]) (.error .queueClosed)
  | accepted {trace : Trace} {id : Int} (h : Placed certificate trace (.ok id)) (number : Nat) :
    Submitted certificate priority (trace ++ [queueing id priority (some number)])
      (.ok ⟨number, id⟩)

variable {trace : Trace}

theorem runs_place_iff {certificate : Int} {result : Except JobError Int} :
    Runs (place certificate).run trace result ↔ Placed certificate trace result := by
  constructor
  · intro run
    rcases runs_attempt_iff.mp run with ⟨e, hLoad, rfl⟩ | ⟨_, record, later, rfl, hLoad, hNaming⟩
    · obtain ⟨cause, hAsk, rfl⟩ := Attempt.runs_ofWork_error_iff.mp hLoad
      obtain rfl := runs_ask_iff.mp hAsk
      exact .unloaded cause
    obtain rfl := runs_ask_iff.mp (Attempt.runs_ofWork_ok_iff.mp hLoad)
    rcases runs_attempt_iff.mp hNaming with ⟨e, hNames, rfl⟩ | ⟨_, request, _, rfl, hNames, hRest⟩
    · obtain ⟨rfl, cause, hFault, rfl⟩ := Attempt.runs_ofExcept_error_iff.mp hNames
      exact .unnamed hFault
    obtain ⟨rfl, hRequest⟩ := Attempt.runs_ofExcept_ok_iff.mp hNames
    rcases runs_attempt_iff.mp hRest with ⟨e, hOrder, rfl⟩ | ⟨_, order, _, rfl, hOrder, hStore⟩
    · obtain ⟨cause, hAsk, rfl⟩ := Attempt.runs_ofWork_error_iff.mp hOrder
      obtain rfl := runs_ask_iff.mp hAsk
      exact .unordered hRequest cause
    obtain rfl := runs_ask_iff.mp (Attempt.runs_ofWork_ok_iff.mp hOrder)
    obtain ⟨answer, hAsk, rfl⟩ := Attempt.runs_ofWork_iff.mp hStore
    obtain rfl := runs_ask_iff.mp hAsk
    cases answer with
    | error e => exact .unstored hRequest order e
    | ok id => exact .stored hRequest order id
  · intro h
    have hLoaded (record : CertificateRecord) : Runs (askStore (.certificate certificate)).run
        [loading certificate (.ok record)] (.ok record) :=
      Attempt.runs_ofWork_ok_iff.mpr (runs_ask_iff.mpr rfl)
    have hNamed {record : CertificateRecord} {request : NewOrder}
        (h : NewOrder.ofNames record.identifiers = .ok request) :
        Runs (Attempt.ofExcept (NewOrder.ofNames record.identifiers) JobError.identifiers).run []
          (.ok request) :=
      Attempt.runs_ofExcept_ok_iff.mpr ⟨rfl, h⟩
    have hOrdered (record : CertificateRecord) (request : NewOrder) (order : Order) :
        Runs (Attempt.ofWork (.ask (service record.environment (.newOrder request) record.key))
          JobError.service).run
          [ordering record.environment request record.key (.ok order)] (.ok order) :=
      Attempt.runs_ofWork_ok_iff.mpr (runs_ask_iff.mpr rfl)
    cases h with
    | unloaded e =>
      have hFailed : Runs (askStore (.certificate certificate)).run
          [loading certificate (.error e)] (.error (.store e)) :=
        Attempt.runs_ofWork_error_iff.mpr ⟨e, runs_ask_iff.mpr rfl, rfl⟩
      exact runs_attempt_iff.mpr (.inl ⟨_, hFailed, rfl⟩)
    | unnamed h =>
      refine runs_attempt_iff.mpr (.inr ⟨[_], _, [], rfl, hLoaded _, ?_⟩)
      refine runs_attempt_iff.mpr (.inl ⟨_, ?_, rfl⟩)
      exact Attempt.runs_ofExcept_error_iff.mpr ⟨rfl, _, h, rfl⟩
    | @unordered record request h e =>
      refine runs_attempt_iff.mpr (.inr ⟨[_], _, [_], rfl, hLoaded _, ?_⟩)
      refine runs_attempt_iff.mpr (.inr ⟨[], request, [_], rfl, hNamed h, ?_⟩)
      refine runs_attempt_iff.mpr (.inl ⟨_, ?_, rfl⟩)
      exact Attempt.runs_ofWork_error_iff.mpr ⟨e, runs_ask_iff.mpr rfl, rfl⟩
    | @unstored record request h order e =>
      refine runs_attempt_iff.mpr (.inr ⟨[_], _, [_, _], rfl, hLoaded _, ?_⟩)
      refine runs_attempt_iff.mpr (.inr ⟨[], request, [_, _], rfl, hNamed h, ?_⟩)
      refine runs_attempt_iff.mpr (.inr ⟨[_], order, [_], rfl, hOrdered record request order, ?_⟩)
      exact Attempt.runs_ofWork_error_iff.mpr ⟨e, runs_ask_iff.mpr rfl, rfl⟩
    | @stored record request h order id =>
      refine runs_attempt_iff.mpr (.inr ⟨[_], _, [_, _], rfl, hLoaded _, ?_⟩)
      refine runs_attempt_iff.mpr (.inr ⟨[], request, [_, _], rfl, hNamed h, ?_⟩)
      refine runs_attempt_iff.mpr (.inr ⟨[_], order, [_], rfl, hOrdered record request order, ?_⟩)
      exact Attempt.runs_ofWork_ok_iff.mpr (runs_ask_iff.mpr rfl)

theorem runs_submit_iff {order : Int} {priority : Priority} {result : Except JobError Ticket} :
    Runs (submit order priority).run trace result ↔
      (trace = [queueing order priority none] ∧ result = .error .queueClosed) ∨
        ∃ number, trace = [queueing order priority (some number)] ∧
          result = .ok ⟨number, order⟩ := by
  constructor
  · intro run
    obtain ⟨answer, rest, rfl, hDone⟩ := runs_call_iff.mp run
    cases answer with
    | none =>
      obtain ⟨rfl, rfl⟩ := runs_done_iff.mp hDone
      exact .inl ⟨rfl, rfl⟩
    | some number =>
      obtain ⟨rfl, rfl⟩ := runs_done_iff.mp hDone
      exact .inr ⟨number, rfl, rfl⟩
  · rintro (⟨rfl, rfl⟩ | ⟨number, rfl, rfl⟩)
    · exact .turn _ (.here _)
    · exact .turn _ (.here _)

theorem runs_placeAndSubmit_iff {certificate : Int} {priority : Priority}
    {result : Except JobError Ticket} :
    Runs (placeAndSubmit certificate priority).run trace result ↔
      Submitted certificate priority trace result := by
  constructor
  · intro run
    rcases runs_attempt_iff.mp run with ⟨e, hPlace, rfl⟩ | ⟨before, id, _, rfl, hPlace, hSubmit⟩
    · exact .failed (runs_place_iff.mp hPlace)
    · rcases runs_submit_iff.mp hSubmit with ⟨rfl, rfl⟩ | ⟨number, rfl, rfl⟩
      · exact .refused (runs_place_iff.mp hPlace)
      · exact .accepted (runs_place_iff.mp hPlace) number
  · intro h
    refine runs_attempt_iff.mpr ?_
    cases h with
    | failed h => exact .inl ⟨_, runs_place_iff.mpr h, rfl⟩
    | refused h =>
      exact .inr ⟨_, _, _, rfl, runs_place_iff.mpr h, runs_submit_iff.mpr (.inl ⟨rfl, rfl⟩)⟩
    | accepted h number =>
      exact .inr ⟨_, _, _, rfl, runs_place_iff.mpr h,
        runs_submit_iff.mpr (.inr ⟨number, rfl, rfl⟩)⟩

end Job

end Enrollment
