import Enrollment.Issuing.Renewing
import Enrollment.Proofs.Dispatch.History
import Enrollment.Proofs.Issuing.Placing
import Enrollment.Proofs.Renewal.Scan

/-! # What a scan does

For each candidate of a scan an order is placed, for one after the other. How far that comes is told
by the answers to its own calls; a failure costs a report and nothing else. The scheduler stops only
after a scan whose window is unsound.
-/

namespace Enrollment

open Procedure

def IssuerCall.loads? : IssuerCall → Option Int
  | .store (.certificate id) => some id
  | _ => none

namespace Dispatch

variable {ρ : Type} {d e f : Dispatch ρ} {order : Int} {priority : Priority} {answer : Option Nat}
  {trace past later : Job.Trace}

/-- What comes of an order that is handed in, once there is room for it or nobody to take it. -/
inductive HandedIn (d : Dispatch ρ) (order : Int) (priority : Priority) :
    Option Nat → Dispatch ρ → Prop where
  | refused (h : d.submit order priority = .closed) : HandedIn d order priority none d
  | accepted {ticket : Nat} {e : Dispatch ρ} (h : d.submit order priority = .accepted ticket e) :
    HandedIn d order priority (some ticket) e

/-- A dispatch during some work. Between the calls, others make their moves. -/
inductive Served : Dispatch ρ → Job.Trace → Dispatch ρ → Prop where
  | done (d : Dispatch ρ) : Served d [] d
  | moved {d e f : Dispatch ρ} {trace : Job.Trace} (m : Move ρ) (moves : d.move? m = some e)
    (h : Served e trace f) : Served d trace f
  | passed {d e : Dispatch ρ} {turn : Turn IssuerCall.Answer} {trace : Job.Trace}
    (other : turn.call.stage? ≠ some .queueing) (h : Served d trace e) : Served d (turn :: trace) e
  | handedIn {d e f : Dispatch ρ} {order : Int} {priority : Priority} {answer : Option Nat}
    {trace : Job.Trace} (handed : HandedIn d order priority answer e) (h : Served e trace f) :
    Served d (Job.queueing order priority answer :: trace) f

theorem HandedIn.answer_cases (h : d.HandedIn order .low answer e) :
    (d.isClosed = true ∧ answer = none ∧ e = d) ∨
      (d.isClosed = false ∧ ∃ ticket, answer = some ticket ∧
        e.low = d.low ++ [⟨ticket, order⟩] ∧ e.high = d.high) := by
  cases h with
  | refused h =>
    unfold submit at h
    split at h
    · next hClosed => exact .inl ⟨hClosed, rfl, rfl⟩
    · split at h <;> cases h
  | accepted h =>
    cases change_of_submit h with
    | accepted isOpen room => exact .inr ⟨isOpen, _, rfl, rfl, rfl⟩

/-- Where an order was handed in, the dispatch stood as others and the calls before had left it. -/
theorem Served.split (h : Served d trace f)
    (hTrace : trace = past ++ Job.queueing order priority answer :: later) :
    ∃ before after, Served d past before ∧ before.HandedIn order priority answer after ∧
      Served after later f := by
  -- By what the dispatch goes through: the moves of others leave the trace as it is.
  induction h generalizing past with
  | done d => simp at hTrace
  | moved m moves h ih =>
    obtain ⟨before, after, hPast, hHanded, hLater⟩ := ih hTrace
    exact ⟨before, after, .moved m moves hPast, hHanded, hLater⟩
  | passed other h ih =>
    cases past with
    | nil =>
      obtain ⟨rfl, rfl⟩ := List.cons.inj hTrace
      exact absurd rfl other
    | cons turn past =>
      obtain ⟨rfl, hRest⟩ := List.cons.inj hTrace
      obtain ⟨before, after, hPast, hHanded, hLater⟩ := ih hRest
      exact ⟨before, after, .passed other hPast, hHanded, hLater⟩
  | handedIn handed h ih =>
    cases past with
    | nil =>
      obtain ⟨hTurn, rfl⟩ := List.cons.inj hTrace
      obtain ⟨⟨rfl, rfl⟩, rfl⟩ := Job.queueing_inj.mp hTurn
      exact ⟨_, _, .done _, handed, h⟩
    | cons turn past =>
      obtain ⟨rfl, hRest⟩ := List.cons.inj hTrace
      obtain ⟨before, after, hPast, hHanded, hLater⟩ := ih hRest
      exact ⟨before, after, .handedIn handed hPast, hHanded, hLater⟩

end Dispatch

namespace Renewal

open Job

def unplaced : Turn IssuerCall.Answer := ⟨.notify .renewalNotPlaced, ()⟩

/-- How an order is placed for a certificate that is to be renewed. -/
inductive Renewing (certificate : Int) : Trace → Prop where
  | failed {trace : Trace} {e : JobError} (h : Placed certificate trace (.error e)) :
    Renewing certificate (trace ++ [unplaced])
  | refused {trace : Trace} {id : Int} (h : Placed certificate trace (.ok id)) :
    Renewing certificate (trace ++ [queueing id .low none, unplaced])
  | queued {trace : Trace} {id : Int} (h : Placed certificate trace (.ok id)) (ticket : Nat) :
    Renewing certificate (trace ++ [queueing id .low (some ticket)])

/-- What is done for a certificate that is to be renewed, by the answers that come for it. -/
structure Renewed (certificate : Int) (trace : Trace) : Prop where
  loads : trace.filterMap (·.call.loads?) = [certificate]
  stages : trace.filterMap (·.call.stage?) <+: PlacingStage.all
  others : ∀ turn ∈ trace, turn.call.stage? = none → turn = unplaced
  orders : ∀ environment request key,
    (∃ answer, ordering environment request key answer ∈ trace) ↔
      ∃ record, loading certificate (.ok record) ∈ trace ∧ environment = record.environment ∧
        request.Names record.identifiers ∧ key = record.key
  ordered : (∃ environment request key answer, ordering environment request key answer ∈ trace) ↔
    ∃ record, loading certificate (.ok record) ∈ trace ∧ record.identifiers ≠ [] ∧
      ∀ name ∈ record.identifiers, ∃ identifier, Identifier.ofName name = .ok identifier
  stores : ∀ id order, (∃ answer, storing id order answer ∈ trace) ↔
    id = certificate ∧ ∃ environment request key,
      ordering environment request key (.ok order) ∈ trace
  queues : ∀ id priority, (∃ answer, queueing id priority answer ∈ trace) ↔
    priority = .low ∧ ∃ order, storing certificate order (.ok id) ∈ trace
  reports : unplaced ∈ trace ↔ ∀ id ticket, queueing id .low (some ticket) ∉ trace

section

variable {certificate : Int} {trace : Trace} {candidate : RenewalCandidate}

theorem runs_renew_iff :
    Runs (renew candidate) trace () ↔ Renewing candidate.certificate.id trace := by
  constructor
  · intro run
    obtain ⟨placing, result, rest, rfl, hPlacing, hRest⟩ := runs_bind_iff.mp run
    cases runs_placeAndSubmit_iff.mp hPlacing with
    | failed h =>
      obtain rfl := runs_ask_iff.mp hRest
      exact .failed h
    | refused h =>
      obtain rfl := runs_ask_iff.mp hRest
      rw [List.append_assoc]
      exact .refused h
    | accepted h number =>
      obtain ⟨rfl, -⟩ := runs_done_iff.mp hRest
      rw [List.append_nil]
      exact .queued h number
  · intro h
    refine runs_bind_iff.mpr ?_
    cases h with
    | failed h =>
      exact ⟨_, _, [unplaced], rfl, runs_placeAndSubmit_iff.mpr (.failed h), runs_ask_iff.mpr rfl⟩
    | refused h =>
      refine ⟨_, _, [unplaced], ?_, runs_placeAndSubmit_iff.mpr (.refused h), runs_ask_iff.mpr rfl⟩
      rw [List.append_assoc]
      rfl
    | queued h ticket =>
      exact ⟨_, _, [], (List.append_nil _).symm, runs_placeAndSubmit_iff.mpr (.accepted h ticket),
        .here _⟩

namespace Renewing

theorem loads_eq (h : Renewing certificate trace) :
    trace.filterMap (·.call.loads?) = [certificate] := by
  cases h with
  | failed h | refused h | queued h => cases h <;> rfl

theorem stages_prefix (h : Renewing certificate trace) :
    trace.filterMap (·.call.stage?) <+: PlacingStage.all := by
  cases h with
  | failed h | refused h | queued h => cases h <;> exact ⟨_, rfl⟩

theorem eq_unplaced (h : Renewing certificate trace) {turn : Turn IssuerCall.Answer}
    (hMem : turn ∈ trace) (hStage : turn.call.stage? = none) : turn = unplaced := by
  revert turn
  cases h with
  | failed h | refused h | queued h => cases h <;> simp

theorem orders_iff (h : Renewing certificate trace) {environment : Environment}
    {request : NewOrder} {key : AccountKey} :
    (∃ answer, ordering environment request key answer ∈ trace) ↔
      ∃ record, loading certificate (.ok record) ∈ trace ∧ environment = record.environment ∧
        request.Names record.identifiers ∧ key = record.key := by
  simp only [← NewOrder.ofNames_eq_ok_iff]
  cases h with
  | failed h =>
    cases h with
    | unloaded => simp [loading, ordering, unplaced]
    | unnamed h => simp [loading, ordering, unplaced, h]
    | unordered h => simp [loading, ordering, unplaced, h, eq_comm]
    | unstored h => simp [loading, ordering, unplaced, storing, h, eq_comm]
  | refused h | queued h =>
    cases h with
    | stored h => simp [loading, ordering, unplaced, storing, queueing, h, eq_comm]

theorem stores_iff (h : Renewing certificate trace) {id : Int} {order : Order} :
    (∃ answer, storing id order answer ∈ trace) ↔ id = certificate ∧
      ∃ environment request key, ordering environment request key (.ok order) ∈ trace := by
  cases h with
  | failed h | refused h | queued h =>
    cases h <;> simp [loading, ordering, unplaced, storing, queueing]

theorem queues_iff (h : Renewing certificate trace) {id : Int} {priority : Priority} :
    (∃ answer, queueing id priority answer ∈ trace) ↔
      priority = .low ∧ ∃ order, storing certificate order (.ok id) ∈ trace := by
  cases h with
  | failed h | refused h | queued h =>
    cases h <;> simp [loading, ordering, unplaced, storing, queueing, and_comm]

theorem unplaced_mem_iff (h : Renewing certificate trace) :
    unplaced ∈ trace ↔ ∀ id ticket, queueing id .low (some ticket) ∉ trace := by
  cases h with
  | failed h | refused h | queued h =>
    cases h <;> simp [loading, ordering, unplaced, storing, queueing]

/-- An order is asked for if the names of the certificate allow it. -/
theorem ordered_iff (h : Renewing certificate trace) :
    (∃ environment request key answer, ordering environment request key answer ∈ trace) ↔
      ∃ record, loading certificate (.ok record) ∈ trace ∧ record.identifiers ≠ [] ∧
        ∀ name ∈ record.identifiers, ∃ identifier, Identifier.ofName name = .ok identifier := by
  constructor
  · rintro ⟨environment, request, key, hOrdered⟩
    obtain ⟨record, hLoaded, -, hNames, -⟩ := h.orders_iff.mp hOrdered
    exact ⟨record, hLoaded, NewOrder.exists_names_iff.mp ⟨request, hNames⟩⟩
  · rintro ⟨record, hLoaded, hNames⟩
    obtain ⟨request, hRequest⟩ := NewOrder.exists_names_iff.mpr hNames
    exact ⟨_, request, _, h.orders_iff.mpr ⟨record, hLoaded, rfl, hRequest, rfl⟩⟩

theorem renewed (h : Renewing certificate trace) : Renewed certificate trace where
  loads := h.loads_eq
  stages := h.stages_prefix
  others _ hMem hStage := h.eq_unplaced hMem hStage
  orders _ _ _ := h.orders_iff
  ordered := h.ordered_iff
  stores _ _ := h.stores_iff
  queues _ _ := h.queues_iff
  reports := h.unplaced_mem_iff

end Renewing

/-- What is done for some certificates is what is done for each of them. -/
theorem runs_renewAll_iff {candidates : List RenewalCandidate} :
    Runs (renewAll candidates) trace () ↔ ∃ parts, trace = parts.flatten ∧
      List.Forall₂ (fun candidate part => Runs (renew candidate) part ()) candidates parts := by
  induction candidates generalizing trace with
  | nil =>
    constructor
    · intro run
      exact ⟨[], (runs_done_iff.mp run).1, .nil⟩
    · rintro ⟨parts, rfl, hParts⟩
      obtain rfl := List.forall₂_nil_left_iff.mp hParts
      exact .here _
  | cons candidate candidates ih =>
    constructor
    · intro run
      obtain ⟨part, _, rest, rfl, hFirst, hRest⟩ := runs_bind_iff.mp run
      obtain ⟨parts, rfl, hParts⟩ := ih.mp hRest
      exact ⟨part :: parts, rfl, .cons hFirst hParts⟩
    · rintro ⟨_, rfl, hParts⟩
      cases hParts with
      | @cons _ part _ parts hFirst hParts =>
        exact runs_bind_iff.mpr ⟨part, (), parts.flatten, rfl, hFirst, ih.mpr ⟨parts, rfl, hParts⟩⟩

theorem filterMap_loads {candidates : List RenewalCandidate} {parts : List Trace}
    (h : List.Forall₂ (fun candidate part => Renewing candidate.certificate.id part) candidates
      parts) :
    parts.flatten.filterMap (·.call.loads?) = candidates.map (·.certificate.id) := by
  induction h with
  | nil => rfl
  | cons hFirst _ ih => rw [List.flatten_cons, List.filterMap_append, ih, hFirst.loads_eq]; rfl

end

section

variable {threshold : Calendar.Span} {now : Calendar.Instant} {trace rest : Trace} {goesOn : Bool}

/-- What a scan does about what was found. -/
inductive Concluded : Except RenewalScanError (List RenewalCandidate) → Trace → Bool → Prop where
  | negativeThreshold :
    Concluded (.error .negativeThreshold) [⟨.notify .thresholdNegative, ()⟩] false
  | thresholdRange : Concluded (.error .thresholdRange) [⟨.notify .thresholdRange, ()⟩] false
  | inventory (cause : String) :
    Concluded (.error (.inventory cause)) [⟨.notify .inventoryUnread, ()⟩] true
  | renewed {candidates : List RenewalCandidate} {trace : Trace}
    (h : Runs (renewAll candidates) trace ()) : Concluded (.ok candidates) trace true

theorem runs_scanAndRenew_iff : Runs (scanAndRenew threshold) trace goesOn ↔
    ∃ now loading found rest, trace = ⟨.clock, now⟩ :: (loading ++ rest) ∧
      Runs (scanWith loadInventory threshold now) loading found ∧ Concluded found rest goesOn := by
  constructor
  · intro run
    obtain ⟨_, now, scanning, rfl, hClock, hScanning⟩ := runs_bind_iff.mp run
    obtain rfl := runs_ask_iff.mp hClock
    obtain ⟨loading, found, rest, rfl, hFound, hRest⟩ := runs_bind_iff.mp hScanning
    refine ⟨now, loading, found, rest, rfl, hFound, ?_⟩
    match found with
    | .error .negativeThreshold =>
      obtain ⟨_, _, rfl, hDone⟩ := runs_call_iff.mp hRest
      obtain ⟨rfl, rfl⟩ := runs_done_iff.mp hDone
      exact .negativeThreshold
    | .error .thresholdRange =>
      obtain ⟨_, _, rfl, hDone⟩ := runs_call_iff.mp hRest
      obtain ⟨rfl, rfl⟩ := runs_done_iff.mp hDone
      exact .thresholdRange
    | .error (.inventory cause) =>
      obtain ⟨_, _, rfl, hDone⟩ := runs_call_iff.mp hRest
      obtain ⟨rfl, rfl⟩ := runs_done_iff.mp hDone
      exact .inventory cause
    | .ok candidates =>
      obtain ⟨renewing, _, _, rfl, hRenewing, hDone⟩ := runs_bind_iff.mp hRest
      obtain ⟨rfl, rfl⟩ := runs_done_iff.mp hDone
      rw [List.append_nil]
      exact .renewed hRenewing
  · rintro ⟨now, loading, found, rest, rfl, hFound, hConcluded⟩
    refine runs_bind_iff.mpr ⟨[⟨.clock, now⟩], now, _, rfl, runs_ask_iff.mpr rfl, ?_⟩
    refine runs_bind_iff.mpr ⟨loading, found, rest, rfl, hFound, ?_⟩
    cases hConcluded with
    | negativeThreshold | thresholdRange | inventory => exact .turn _ (.here _)
    | renewed h => exact runs_bind_iff.mpr ⟨rest, (), [], (List.append_nil _).symm, h, .here _⟩

theorem Concluded.goesOn_iff {found : Except RenewalScanError (List RenewalCandidate)}
    (h : Concluded found rest goesOn) :
    goesOn = false ↔ found = .error .negativeThreshold ∨ found = .error .thresholdRange := by
  cases h <;> simp

/-- After a scan the scheduler goes on to another round or is done. -/
theorem runs_round_iff {time : TimeOfDay} {next began : Calendar.Instant} {after : Trace}
    {result : Option Calendar.Instant} (run : Runs (scanAndRenew threshold) trace goesOn) :
    Runs (round ⟨time, threshold⟩ next) (⟨.clock, began⟩ ::
        ⟨.wait (millisecondsUntil began next), .elapsed⟩ :: (trace ++ after)) result ↔
      (goesOn = false ∧ after = [] ∧ result = none) ∨
        (goesOn = true ∧ ∃ later, after = [⟨.clock, later⟩] ∧
          result = time.following? next later) := by
  constructor
  · intro hRound
    obtain ⟨_, _, hTrace, hWaiting⟩ := runs_call_iff.mp hRound
    cases hTrace
    obtain ⟨_, _, hTrace, hScanning⟩ := runs_call_iff.mp hWaiting
    cases hTrace
    obtain ⟨scanning, answer, rest, hTrace, hScan, hRest⟩ :=
      runs_bind_iff (p := scanAndRenew threshold) |>.mp hScanning
    -- Where the scan ends in the trace of the round is told by the scan alone.
    obtain ⟨rfl, rfl, rfl⟩ := run.append_inj hScan hTrace
    cases goesOn with
    | false =>
      obtain ⟨rfl, rfl⟩ := runs_done_iff.mp hRest
      exact .inl ⟨rfl, rfl, rfl⟩
    | true =>
      obtain ⟨later, _, rfl, hDone⟩ := runs_call_iff.mp hRest
      obtain ⟨rfl, rfl⟩ := runs_done_iff.mp hDone
      exact .inr ⟨rfl, later, rfl, rfl⟩
  · rintro (⟨rfl, rfl, rfl⟩ | ⟨rfl, later, rfl, rfl⟩)
    · refine .turn _ (.turn _ (runs_bind_iff (p := scanAndRenew threshold) |>.mpr ?_))
      exact ⟨trace, false, [], rfl, run, .here _⟩
    · refine .turn _ (.turn _ (runs_bind_iff (p := scanAndRenew threshold) |>.mpr ?_))
      exact ⟨trace, true, [⟨.clock, later⟩], rfl, run, .turn later (.here _)⟩

end

/-- A scan does for each of its candidates, in their order, what is done for that one alone. What
comes of the calls for one of them makes no difference to the others. -/
theorem scanAndRenew_isolates {threshold : Calendar.Span} {trace : Trace} {goesOn : Bool}
    (run : Runs (scanAndRenew threshold) trace goesOn) :
    ∃ now loading found rest, trace = ⟨.clock, now⟩ :: (loading ++ rest) ∧
      Runs (scanWith loadInventory threshold now) loading found ∧
      (∀ candidates, found = .ok candidates →
        rest.filterMap (·.call.loads?) = candidates.map (·.certificate.id) ∧
        (∃ parts, rest = parts.flatten ∧ List.Forall₂ (fun candidate part =>
          Runs (renew candidate) part () ∧ Renewed candidate.certificate.id part) candidates
            parts) ∧
        ∀ parts,
          List.Forall₂ (fun candidate part => Runs (renew candidate) part ()) candidates parts →
          Runs (scanAndRenew threshold) (⟨.clock, now⟩ :: (loading ++ parts.flatten)) true) ∧
      (∀ candidate answers past, ∃! part,
        Runs (renew candidate) part () ∧ Follows answers past part) ∧
      (∀ {ρ : Type} (d f : Dispatch ρ) past id answer later,
        trace = past ++ queueing id .low answer :: later → d.Served trace f →
        ∃ before after, d.Served past before ∧ after.Served later f ∧
          ((before.isClosed = true ∧ answer = none ∧ after = before) ∨
            (before.isClosed = false ∧ ∃ ticket, answer = some ticket ∧
              after.low = before.low ++ [⟨ticket, id⟩] ∧ after.high = before.high))) ∧
      (goesOn = false ↔ found = .error .negativeThreshold ∨ found = .error .thresholdRange) ∧
      ∀ time next began after result,
        Runs (round ⟨time, threshold⟩ next) (⟨.clock, began⟩ ::
          ⟨.wait (millisecondsUntil began next), .elapsed⟩ :: (trace ++ after)) result ↔
        (goesOn = false ∧ after = [] ∧ result = none) ∨
          (goesOn = true ∧ ∃ later, after = [⟨.clock, later⟩] ∧
            result = time.following? next later) := by
  obtain ⟨now, loading, found, rest, rfl, hFound, hConcluded⟩ := runs_scanAndRenew_iff.mp run
  refine ⟨now, loading, found, rest, rfl, hFound, ?_, ?_, ?_, hConcluded.goesOn_iff, ?_⟩
  · rintro candidates rfl
    cases hConcluded with
    | renewed h =>
      obtain ⟨parts, rfl, hParts⟩ := runs_renewAll_iff.mp h
      refine ⟨?_, ⟨parts, rfl, ?_⟩, ?_⟩
      · exact filterMap_loads (hParts.imp fun _ _ h => runs_renew_iff.mp h)
      · exact hParts.imp fun _ _ h => ⟨h, (runs_renew_iff.mp h).renewed⟩
      -- Any other outcomes for the candidates make up a scan just as well.
      · intro others hOthers
        have hRenewed : Runs (renewAll candidates) others.flatten () :=
          runs_renewAll_iff.mpr ⟨others, rfl, hOthers⟩
        exact runs_scanAndRenew_iff.mpr ⟨now, loading, _, _, rfl, hFound, .renewed hRenewed⟩
  · intro candidate answers past
    obtain ⟨part, _, hRun, hFollows⟩ := exists_runs answers past (renew candidate)
    exact ⟨part, ⟨hRun, hFollows⟩,
      fun other hOther => (hOther.1.unique_of_follows hRun hOther.2 hFollows).1⟩
  · intro ρ d f past id answer later hTrace hServed
    obtain ⟨before, after, hPast, hHanded, hLater⟩ := hServed.split hTrace
    exact ⟨before, after, hPast, hLater, hHanded.answer_cases⟩
  · intro time next began after result
    exact runs_round_iff run

/-! ### A candidate that is passed over -/

def twoExpiring : List ManagedCertificate := [expiring 1 5 0, expiring 2 7 0]

def bothExpiring : List RenewalCandidate := twoExpiring.map (ManagedCertificate.candidate ⟨0, 3600⟩)

def renewable : CertificateRecord :=
  ⟨2, "web", ["Example.org."], ⟨.curve .p256 1 rfl, none⟩, .webInternal, .staging, [48]⟩

def renewal : NewOrder := ⟨[.dns "example.org"], List.cons_ne_nil _ _⟩

def freshOrder : Order := .new .pending [] ⟨"https", none, .segments ["finalize"], none, none⟩

/-- The first certificate cannot be loaded. -/
def passedOver : Trace := [loading 1 (.error (.backend "down")), unplaced]

/-- For the second one an order is placed, which is given the number 7. -/
def placedNext : Trace := [loading 2 (.ok renewable),
  ordering .staging renewal renewable.key (.ok freshOrder), storing 2 freshOrder (.ok 7),
  queueing 7 .low (some 0)]

def inventoried : Trace := [⟨.store .managedCertificates, .ok twoExpiring⟩]

theorem names_renewal : renewal.Names renewable.identifiers := by
  refine .cons ?_ .nil
  decide +kernel

theorem scan_twoExpiring : scan ⟨10⟩ ⟨0, 3600⟩ (.ok twoExpiring) = .ok bothExpiring := by
  have hEnd : windowEnd ⟨10⟩ ⟨0, 3600⟩ = .ok ⟨10, 3600⟩ := by decide
  rw [scan_of_ok hEnd]
  have hSorted : bothExpiring.Pairwise fun a b => byKey RenewalCandidate.expiry a b := by decide
  exact congrArg Except.ok (List.mergeSort_of_pairwise hSorted)

theorem runs_inventoried :
    Runs (scanWith loadInventory ⟨10⟩ ⟨0, 3600⟩) inventoried (.ok bothExpiring) :=
  runs_scanWith_iff.mpr (.inl ⟨by decide, endsInCalendar_ten, .ok twoExpiring, .turn _ (.here _),
    scan_twoExpiring.symm⟩)

theorem runs_bothExpiring : List.Forall₂ (fun candidate part => Runs (renew candidate) part ())
    bothExpiring [passedOver, placedNext] := by
  refine .cons ?_ (.cons ?_ .nil)
  · exact runs_renew_iff.mpr (.failed (.unloaded _))
  · have hRequest := NewOrder.ofNames_eq_ok_iff.mpr names_renewal
    exact runs_renew_iff.mpr (.queued (.stored hRequest freshOrder 7) 0)

def beforePlaced : Trace :=
  ⟨.clock, ⟨0, 3600⟩⟩ :: (inventoried ++ (passedOver ++ placedNext.take 3))

theorem runs_scanAndRenew_passedOver : Runs (scanAndRenew ⟨10⟩)
    (⟨.clock, ⟨0, 3600⟩⟩ :: (inventoried ++ (passedOver ++ placedNext))) true :=
  runs_scanAndRenew_iff.mpr ⟨_, _, _, _, rfl, runs_inventoried,
    .renewed (runs_renewAll_iff.mpr ⟨_, rfl, runs_bothExpiring⟩)⟩

theorem served_passedOver : ∃ f, (Dispatch.new 1 1 : Dispatch Unit).Served
    (⟨.clock, ⟨0, 3600⟩⟩ :: (inventoried ++ (passedOver ++ placedNext))) f :=
  ⟨_, .passed nofun (.passed nofun (.passed nofun (.passed nofun (.passed nofun (.passed nofun
    (.passed nofun (.handedIn (.accepted rfl) (.done _))))))))⟩

theorem scanAndRenew_isolates_passedOver :
    Runs (scanAndRenew ⟨10⟩) (⟨.clock, ⟨0, 3600⟩⟩ :: (inventoried ++ (passedOver ++ placedNext)))
      true ∧
    (∃ parts, passedOver ++ placedNext = parts.flatten ∧ List.Forall₂ (fun candidate part =>
      Runs (renew candidate) part () ∧ Renewed candidate.certificate.id part) bothExpiring parts) ∧
    ∃ before after : Dispatch Unit, (Dispatch.new 1 1).Served beforePlaced before ∧
      before.isClosed = false ∧ after.low = before.low ++ [⟨0, 7⟩] := by
  obtain ⟨now, loading, found, rest, hTrace, hFound, hRenewed, -, hQueued, -, -⟩ :=
    scanAndRenew_isolates runs_scanAndRenew_passedOver
  obtain ⟨hClock, hRest⟩ := List.cons.inj hTrace
  cases hClock
  obtain ⟨rfl, rfl, rfl⟩ := runs_inventoried.append_inj hFound hRest
  obtain ⟨-, hParts, -⟩ := hRenewed bothExpiring rfl
  obtain ⟨f, hServed⟩ := served_passedOver
  obtain ⟨before, after, hBefore, -, hHanded⟩ :=
    hQueued _ f beforePlaced 7 (some 0) [] rfl hServed
  refine ⟨runs_scanAndRenew_passedOver, hParts, before, after, hBefore, ?_⟩
  rcases hHanded with ⟨-, hNone, -⟩ | ⟨hOpen, ticket, hTicket, hLow, -⟩
  · cases hNone
  · cases hTicket
    exact ⟨hOpen, hLow⟩

end Renewal

end Enrollment
