import Mathlib.Algebra.Order.Group.Multiset
import Mathlib.Data.Multiset.Range
import Mathlib.Tactic.Abel
import Enrollment.Proofs.Dispatch.History

/-! # Where tickets are

Every ticket that was given out is in one place and in no other: in a queue, in the hands of a
worker, or among those that have ended. The proof counts them. A move takes tickets from one place
and puts them into another, or gives a new one out, so that what all the places hold together is
always what was given out.
-/

namespace Enrollment.Dispatch

variable {ρ : Type}

/-- Where a ticket can be; one that ended without a result was given up. -/
inductive Place (ρ : Type) where
  | queued (order : Int) (priority : Priority)
  | held (order : Int) (worker : Nat)
  | ended (result : Option ρ)

def At (d : Dispatch ρ) (ticket : Nat) : Place ρ → Prop
  | .queued order priority => ⟨ticket, order⟩ ∈ d.queue priority
  | .held order i => d.workers[i]? = some (.busy ⟨ticket, order⟩)
  | .ended result => d.ended.get? ticket = some result

def Worker.ticket? : Worker → Option Nat
  | .busy entry => some entry.ticket
  | .idle | .looking | .stopped | .broken => none

def queued (d : Dispatch ρ) (priority : Priority) : List Nat := (d.queue priority).map Entry.ticket

def held (d : Dispatch ρ) : List Nat := d.workers.filterMap Worker.ticket?

/-- The tickets of all the places. -/
def located (d : Dispatch ρ) : Multiset Nat :=
  d.queued .high + d.queued .low + d.held + d.ended.keys

section

variable {d e : Dispatch ρ} {event : Event ρ} {ticket : Nat}

@[simp] theorem withQueue_tickets (entries : List Entry) (priority : Priority) :
    (d.withQueue entries priority).tickets = d.tickets := by cases priority <;> rfl

@[simp] theorem withQueue_workers (entries : List Entry) (priority : Priority) :
    (d.withQueue entries priority).workers = d.workers := by cases priority <;> rfl

@[simp] theorem withWorker_tickets (i : Nat) (worker : Worker) :
    (d.withWorker i worker).tickets = d.tickets := rfl

@[simp] theorem close_tickets : d.close.tickets = d.tickets := by
  unfold close
  split <;> rfl

@[simp] theorem close_workers : d.close.workers = d.workers := by
  unfold close
  split <;> rfl

theorem mem_queued {priority : Priority} :
    ticket ∈ d.queued priority ↔ ∃ order, ⟨ticket, order⟩ ∈ d.queue priority := by
  simp only [queued, List.mem_map]
  constructor
  · rintro ⟨entry, hMem, rfl⟩
    exact ⟨entry.order, hMem⟩
  · rintro ⟨order, hMem⟩
    exact ⟨_, hMem, rfl⟩

theorem Worker.ticket?_eq_some {worker : Worker} :
    worker.ticket? = some ticket ↔ ∃ order, worker = .busy ⟨ticket, order⟩ := by
  cases worker with
  | busy entry =>
    simp only [ticket?, Option.some.injEq, Worker.busy.injEq]
    constructor
    · rintro rfl
      exact ⟨entry.order, rfl⟩
    · rintro ⟨order, rfl⟩
      rfl
  | idle | looking | stopped | broken => simp [ticket?]

theorem mem_held :
    ticket ∈ d.held ↔ ∃ (order : Int) (i : Nat), d.workers[i]? = some (.busy ⟨ticket, order⟩) := by
  simp only [held, List.mem_filterMap, Worker.ticket?_eq_some]
  constructor
  · rintro ⟨worker, hMem, order, rfl⟩
    obtain ⟨i, found⟩ := List.mem_iff_getElem?.mp hMem
    exact ⟨order, i, found⟩
  · rintro ⟨order, i, found⟩
    exact ⟨_, List.mem_of_getElem? found, order, rfl⟩

theorem mem_located : ticket ∈ d.located ↔ ∃ place, d.At ticket place := by
  simp only [located, Multiset.mem_add, Multiset.mem_coe, mem_queued, mem_held, Keyed.mem_keys_iff]
  constructor
  · rintro (((⟨order, hMem⟩ | ⟨order, hMem⟩) | ⟨order, i, found⟩) | ⟨result, ended⟩)
    · exact ⟨.queued order .high, hMem⟩
    · exact ⟨.queued order .low, hMem⟩
    · exact ⟨.held order i, found⟩
    · exact ⟨.ended result, ended⟩
  · rintro ⟨place, h⟩
    cases place with
    | queued order priority =>
      cases priority with
      | high => exact .inl (.inl (.inl ⟨order, h⟩))
      | low => exact .inl (.inl (.inr ⟨order, h⟩))
    | held order i => exact .inl (.inr ⟨order, i, h⟩)
    | ended result => exact .inr ⟨result, h⟩

/-! ### What the parts of a move do to the tickets -/

theorem located_withQueue (entries : List Entry) (priority : Priority) :
    (d.withQueue entries priority).located + d.queued priority =
      d.located + (entries.map Entry.ticket : List Nat) := by
  cases priority <;> simp only [located, withQueue, queued, queue, held] <;> abel

theorem located_withWorker {i : Nat} {before : Worker} (found : d.workers[i]? = some before)
    (after : Worker) : (d.withWorker i after).located + before.ticket?.toList =
      d.located + after.ticket?.toList := by
  obtain ⟨hlt, rfl⟩ := List.getElem?_eq_some_iff.mp found
  let others : List Nat := (d.workers.eraseIdx i).filterMap Worker.ticket?
  have hBefore : (d.held : Multiset Nat) =
      d.workers[i].ticket?.toList + (others : Multiset Nat) := by
    rw [held, Multiset.coe_eq_coe.mpr
      ((List.getElem_cons_eraseIdx_perm hlt).symm.filterMap Worker.ticket?), List.filterMap_cons]
    cases d.workers[i].ticket? <;> rfl
  have hAfter : ((d.withWorker i after).held : Multiset Nat) =
      after.ticket?.toList + (others : Multiset Nat) := by
    rw [held, withWorker, Multiset.coe_eq_coe.mpr
      ((List.set_perm_cons_eraseIdx hlt after).filterMap Worker.ticket?), List.filterMap_cons]
    cases after.ticket? <;> rfl
  simp only [located, hBefore, hAfter]
  simp only [withWorker, queued, queue]
  abel

theorem located_put (result : Option ρ) (h : ticket ∉ d.ended.keys) :
    ({ d with ended := d.ended.put ticket result } : Dispatch ρ).located =
      ticket ::ₘ d.located := by
  simp only [located, Keyed.keys_put d.ended result h, ← Multiset.cons_coe, Multiset.add_cons]
  rfl

theorem located_giveUp {entries : List Entry}
    (h : (d.ended.keys + (entries.map Entry.ticket : List Nat) : Multiset Nat).Nodup) :
    (d.giveUp entries).located = d.located + (entries.map Entry.ticket : List Nat) := by
  induction entries generalizing d with
  | nil => exact (add_zero _).symm
  | cons entry rest ih =>
    rw [List.map_cons, ← Multiset.cons_coe, Multiset.add_cons, Multiset.nodup_cons,
      Multiset.mem_add, not_or, Multiset.mem_coe] at h
    obtain ⟨⟨hFresh, hApart⟩, hRest⟩ := h
    have hTail := ih (d := { d with ended := d.ended.put entry.ticket none }) (by
      rw [Keyed.keys_put d.ended _ hFresh, ← Multiset.cons_coe, Multiset.cons_add,
        Multiset.nodup_cons, Multiset.mem_add, not_or]
      exact ⟨⟨hFresh, hApart⟩, hRest⟩)
    rw [List.map_cons, ← Multiset.cons_coe, Multiset.add_cons, ← Multiset.cons_add,
      ← located_put none hFresh]
    exact hTail

theorem located_close (h : d.located.Nodup) : d.close.located = d.located := by
  unfold close
  split
  · have hQueues : ((d.high ++ d.low).map Entry.ticket : Multiset Nat) =
        d.queued .high + d.queued .low := by
      rw [List.map_append, ← Multiset.coe_add]
      rfl
    have hGiven : (d.giveUp (d.high ++ d.low)).located = _ := located_giveUp (by
      have hSplit : d.located =
          d.ended.keys + ((d.queued .high : Multiset Nat) + d.queued .low) + d.held := by
        simp only [located]
        abel
      rw [hQueues]
      exact Multiset.nodup_of_le (hSplit ▸ Multiset.le_add_right _ _) h)
    rw [hQueues] at hGiven
    refine add_right_cancel (Eq.trans ?_ hGiven)
    simp only [located, queued, queue, held, List.map_nil, Multiset.coe_nil, zero_add]
    simp only [giveUp]
    abel
  · rfl

theorem located_end {i : Nat} {entry : Entry} (found : d.workers[i]? = some (.busy entry))
    (nodup : d.located.Nodup) (after : Worker) (free : after.ticket? = none) (result : Option ρ) :
    ({ d.withWorker i after with ended := d.ended.put entry.ticket result } : Dispatch ρ).located =
      d.located := by
  have hWorker := located_withWorker found after
  rw [free] at hWorker
  have hLocated : d.located = entry.ticket ::ₘ (d.withWorker i after).located := by
    rw [← Multiset.singleton_add, add_comm]
    exact (hWorker.trans (add_zero _)).symm
  rw [hLocated, Multiset.nodup_cons] at nodup
  rw [hLocated]
  refine located_put (d := d.withWorker i after) result fun hKey => nodup.1 ?_
  exact Multiset.mem_add.mpr (.inr (Multiset.mem_coe.mpr hKey))

/-- What all the places hold is what was given out, each ticket once. -/
theorem Change.located_eq (change : Change d event e)
    (h : d.located = Multiset.range d.tickets) : e.located = Multiset.range e.tickets := by
  have hNodup : d.located.Nodup := h ▸ Multiset.nodup_range _
  cases change with
  | @accepted order priority =>
    have hQueue := located_withQueue (d := d) (d.queue priority ++ [⟨d.tickets, order⟩]) priority
    rw [List.map_append, ← Multiset.coe_add, ← add_assoc, add_right_comm] at hQueue
    rw [Multiset.range_succ, ← h, ← Multiset.singleton_add, Multiset.add_comm]
    exact add_right_cancel hQueue
  | signalled => exact h
  | looked found =>
    have hWorker := located_withWorker found .looking
    exact (add_right_cancel hWorker).trans h
  | @took i entry rest priority found _ first =>
    -- The queue gives the ticket, and the worker gets it.
    have hQueue := located_withQueue (d := d) rest priority
    have hFound : (d.withQueue rest priority).workers[i]? = some .looking := by
      rwa [withQueue_workers]
    have hWorker := located_withWorker hFound (.busy entry)
    have hFirst : (d.queued priority : Multiset Nat) =
        ([entry.ticket] : List Nat) + (rest.map Entry.ticket : Multiset Nat) := by
      rw [queued, first]
      rfl
    rw [hFirst, ← add_assoc] at hQueue
    rw [withWorker_tickets, withQueue_tickets, ← h, ← add_right_cancel hQueue]
    exact (add_zero _).symm.trans hWorker
  | @stopped i found =>
    have hWorker : (d.withWorker i .stopped).located = d.located :=
      add_right_cancel (located_withWorker found .stopped)
    rw [located_close (hWorker ▸ hNodup), hWorker, h, close_tickets, withWorker_tickets]
  | answered found result => exact (located_end found hNodup .idle rfl (some result)).trans h
  | @broke i entry found =>
    have hEnd := located_end found hNodup .broken rfl none
    rw [close_tickets]
    exact (located_close (hEnd ▸ hNodup)).trans (hEnd.trans h)

theorem Run.located_eq {workers capacity : Nat} {past : List (Event ρ)}
    (h : Run workers capacity past d) : d.located = Multiset.range d.tickets := by
  refine h.induct (motive := fun _ d => d.located = Multiset.range d.tickets) ?_
    fun _ _ _ _ _ ih change => change.located_eq ih
  have hHeld : (Dispatch.new workers capacity : Dispatch ρ).held = [] := by
    simp only [held, Dispatch.new, List.filterMap_eq_nil_iff]
    intro worker hMem
    rw [List.eq_of_mem_replicate hMem]
    rfl
  rw [located, hHeld]
  rfl

theorem Run.nodup {workers capacity : Nat} {past : List (Event ρ)}
    (h : Run workers capacity past d) : d.located.Nodup :=
  h.located_eq ▸ Multiset.nodup_range _

/-! ### One place -/

theorem At.eq_held {order : Int} {i : Nat} {place : Place ρ} (h : d.At ticket (.held order i))
    (nodup : d.located.Nodup) (h' : d.At ticket place) : place = .held order i := by
  have hWorker := located_withWorker (show d.workers[i]? = _ from h) .idle
  have hLocated : d.located = ticket ::ₘ (d.withWorker i .idle).located := by
    rw [← Multiset.singleton_add, add_comm]
    exact (hWorker.trans (add_zero _)).symm
  rw [hLocated, Multiset.nodup_cons] at nodup
  -- A worker that lets go of its ticket leaves it at every other place where it is.
  by_contra hOther
  refine nodup.1 (mem_located.mpr ⟨place, ?_⟩)
  cases place with
  | queued order' priority => cases priority <;> exact h'
  | held order' j =>
    have hIndex : i ≠ j := by
      rintro rfl
      cases Option.some.inj ((show d.workers[i]? = _ from h).symm.trans h')
      exact hOther rfl
    exact (List.getElem?_set_ne hIndex).trans h'
  | ended result => exact h'

theorem At.eq_queued {order order' : Int} {priority priority' : Priority}
    (h : d.At ticket (.queued order priority)) (nodup : d.located.Nodup)
    (h' : d.At ticket (.queued order' priority')) : order' = order ∧ priority' = priority := by
  have hQueues := (Multiset.nodup_add.mp (Multiset.nodup_add.mp nodup).1).1
  obtain ⟨hHigh, hLow, hApart⟩ := Multiset.nodup_add.mp hQueues
  have hMem := mem_queued.mpr ⟨order, h⟩
  have hMem' := mem_queued.mpr ⟨order', h'⟩
  have hSame (hNodup : (d.queued priority).Nodup)
      (h' : d.At ticket (.queued order' priority)) : order' = order := by
    have hEntry := List.inj_on_of_nodup_map hNodup h' h rfl
    exact congrArg Entry.order hEntry
  cases priority with
  | high =>
    cases priority' with
    | high => exact ⟨hSame hHigh h', rfl⟩
    | low => exact absurd hMem' (Multiset.disjoint_left.mp hApart hMem)
  | low =>
    cases priority' with
    | high => exact absurd hMem (Multiset.disjoint_left.mp hApart hMem')
    | low => exact ⟨hSame hLow h', rfl⟩

theorem At.not_ended {order : Int} {priority : Priority} {result : Option ρ}
    (h : d.At ticket (.queued order priority)) (nodup : d.located.Nodup) :
    ¬ d.At ticket (.ended result) := by
  intro h'
  have hApart := (Multiset.nodup_add.mp nodup).2.2
  refine Multiset.disjoint_left.mp hApart ?_ ((d.ended.mem_keys_iff ticket).mpr ⟨result, h'⟩)
  have hMem := mem_queued.mpr ⟨order, h⟩
  cases priority with
  | high => exact Multiset.mem_add.mpr (.inl (Multiset.mem_add.mpr (.inl hMem)))
  | low => exact Multiset.mem_add.mpr (.inl (Multiset.mem_add.mpr (.inr hMem)))

theorem At.unique {place place' : Place ρ} (nodup : d.located.Nodup) (h : d.At ticket place)
    (h' : d.At ticket place') : place = place' := by
  cases place with
  | held order i => exact (h.eq_held nodup h').symm
  | queued order priority =>
    cases place' with
    | held order' i => exact h'.eq_held nodup h
    | queued order' priority' =>
      obtain ⟨rfl, rfl⟩ := h.eq_queued nodup h'
      rfl
    | ended result => exact absurd h' (h.not_ended nodup)
  | ended result =>
    cases place' with
    | held order' i => exact h'.eq_held nodup h
    | queued order' priority' => exact absurd h (h'.not_ended nodup)
    | ended result' => exact congrArg Place.ended (Option.some.inj (h.symm.trans h'))

theorem Run.at_unique {workers capacity : Nat} {past : List (Event ρ)}
    (h : Run workers capacity past d) {place place' : Place ρ} (hAt : d.At ticket place)
    (hAt' : d.At ticket place') : place = place' :=
  hAt.unique h.nodup hAt'

theorem Run.nodup_queued {workers capacity : Nat} {past : List (Event ρ)}
    (h : Run workers capacity past d) (priority : Priority) : (d.queued priority).Nodup := by
  have hQueues := (Multiset.nodup_add.mp (Multiset.nodup_add.mp h.nodup).1).1
  obtain ⟨hHigh, hLow, -⟩ := Multiset.nodup_add.mp hQueues
  cases priority with
  | high => exact hHigh
  | low => exact hLow

/-- A ticket is somewhere exactly if it was given out. -/
theorem Run.exists_at_iff {workers capacity : Nat} {past : List (Event ρ)}
    (h : Run workers capacity past d) : (∃ place, d.At ticket place) ↔ ticket < d.tickets := by
  rw [← mem_located, h.located_eq, Multiset.mem_range]

end

end Enrollment.Dispatch
