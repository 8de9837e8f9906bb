import Mathlib.Algebra.Order.Group.Multiset
import Mathlib.Tactic.Abel
import Enrollment.Proofs.Challenge.RecordHistory

/-! # What becomes of published records

Every record that was published has been removed, or is in the hands of a run, or in the book, or
was dropped: a record whose removal failed is in the book no longer, and neither is one for whose
token another was published. What is dropped nobody removes any more, and the size of the book does
not count it.
-/

namespace Enrollment

/-- The things of a keyed collection, whatever their keys. -/
def Keyed.values {κ α : Type} (m : Keyed κ α) : Multiset α := (m.entries.map Prod.snd : List α)

namespace Keyed

variable {κ α : Type} [DecidableEq κ]

omit [DecidableEq κ] in
theorem card_values (m : Keyed κ α) : m.values.card = m.size := List.length_map _

theorem values_filter {entries : List (κ × α)} (h : (entries.map Prod.fst).Nodup) (k : κ) :
    (((entries.filter (·.1 ≠ k)).map Prod.snd : List α) : Multiset α) +
      (((entries.find? (·.1 = k)).map Prod.snd).toList : Multiset α) =
      (entries.map Prod.snd : List α) := by
  induction entries with
  | nil => rfl
  | cons entry entries ih =>
    obtain ⟨hNew, hRest⟩ := List.nodup_cons.mp h
    by_cases hKey : entry.1 = k
    · have hOthers : entries.filter (·.1 ≠ k) = entries := by
        refine List.filter_eq_self.mpr fun other hMem => decide_eq_true ?_
        rintro rfl
        exact hNew (hKey ▸ List.mem_map_of_mem hMem)
      rw [List.filter_cons_of_neg (by simpa using hKey), hOthers,
        List.find?_cons_of_pos (by simpa using hKey)]
      simp only [Option.map_some, Option.toList_some, List.map_cons, ← Multiset.cons_coe,
        Multiset.coe_nil, Multiset.add_cons, add_zero]
    · rw [List.filter_cons_of_pos (by simpa using hKey),
        List.find?_cons_of_neg (by simpa using hKey), List.map_cons, List.map_cons,
        ← Multiset.cons_coe, ← Multiset.cons_coe, Multiset.cons_add, ih hRest]

theorem values_erase (m : Keyed κ α) (k : κ) :
    (m.erase k).values + ((m.get? k).toList : Multiset α) = m.values :=
  values_filter m.keys_nodup k

theorem values_put (m : Keyed κ α) (k : κ) (a : α) :
    (m.put k a).values + ((m.get? k).toList : Multiset α) = ([a] : List α) + m.values := by
  rw [← m.values_erase k, ← add_assoc]
  rfl

end Keyed

namespace RecordKeeping

variable {proofs : RecordProofs} {past : List Event} {s : RecordKeeping} {event : Event}

def published (past : List Event) : List PublishedRecord := past.filterMap Event.published?

def removed (past : List Event) : List PublishedRecord := past.filterMap Event.removed?

def dropped (past : List Event) : List PublishedRecord := past.filterMap Event.dropped?

def inHands (s : RecordKeeping) : List PublishedRecord := s.runs.filterMap inHand?

theorem Shift.balance {book book' : RecordBook} {hand hand' : Option PublishedRecord}
    (shift : Shift book hand event book' hand') :
    (event.published?.toList : Multiset PublishedRecord) + hand.toList + book.values =
      event.removed?.toList + event.dropped?.toList + hand'.toList + book'.values := by
  cases shift with
  | refused => rfl
  | published record | removed record | unremoved record =>
    simp only [Event.published?, Event.removed?, Event.dropped?, Option.toList_none,
      Multiset.coe_nil, zero_add, add_zero]
  | remembered token record =>
    -- What was kept for the token comes out of the book for the new record.
    simp only [Event.published?, Event.removed?, Event.dropped?, Option.toList_none,
      Multiset.coe_nil, zero_add, add_zero]
    rw [add_comm ((book.get? token).toList : Multiset PublishedRecord)]
    exact (book.values_put token record).symm
  | forgot token =>
    simp only [Event.published?, Event.removed?, Event.dropped?, Option.toList_none,
      Multiset.coe_nil, zero_add]
    rw [add_comm]
    exact (book.values_erase token).symm

theorem coe_filterMap_cons {α β : Type} (f : α → Option β) (a : α) (entries : List α) :
    ((a :: entries).filterMap f : Multiset β) =
      (f a).toList + (entries.filterMap f : Multiset β) := by
  rw [List.filterMap_cons]
  cases f a <;> rfl

theorem coe_filterMap_concat {α β : Type} (f : α → Option β) (entries : List α) (a : α) :
    ((entries ++ [a]).filterMap f : Multiset β) =
      (entries.filterMap f : Multiset β) + (f a).toList := by
  rw [Multiset.coe_eq_coe.mpr ((List.perm_append_singleton a entries).filterMap f),
    coe_filterMap_cons, add_comm]

theorem coe_filterMap_set {α β : Type} (f : α → Option β) {entries : List α} {i : Nat} {a : α}
    (found : entries[i]? = some a) (a' : α) :
    ((entries.set i a').filterMap f : Multiset β) + (f a).toList =
      (entries.filterMap f : Multiset β) + (f a').toList := by
  obtain ⟨hlt, rfl⟩ := List.getElem?_eq_some_iff.mp found
  rw [Multiset.coe_eq_coe.mpr ((List.set_perm_cons_eraseIdx hlt a').filterMap f),
    Multiset.coe_eq_coe.mpr ((List.getElem_cons_eraseIdx_perm hlt).symm.filterMap f),
    coe_filterMap_cons, coe_filterMap_cons]
  abel

/-- Every record that was published is accounted for once. -/
structure Accounted (past : List Event) (s : RecordKeeping) : Prop where
  stages : ∀ run ∈ s.runs, Stage run
  balance : (published past : Multiset PublishedRecord) =
    removed past + dropped past + s.inHands + s.book.values

namespace Accounted

theorem called (h : Accounted past s) {run : RecordRun} (stage : Stage run)
    (hHand : inHand? run = none) :
    Accounted (past ++ [.called]) { s with runs := s.runs ++ [run] } where
  stages other hMem := by
    rcases List.mem_append.mp hMem with hMem | hMem
    · exact h.stages other hMem
    · exact List.mem_singleton.mp hMem ▸ stage
  balance := by
    simp only [published, removed, dropped, inHands, coe_filterMap_concat, hHand,
      Event.published?, Event.removed?, Event.dropped?, Option.toList_none, Multiset.coe_nil,
      add_zero]
    exact h.balance

theorem step (h : Accounted past s) {i : Nat} {run run' : RecordRun} {book : RecordBook}
    (found : s.runs[i]? = some run) (stage : Stage run')
    (shift : Shift s.book (inHand? run) event book (inHand? run')) :
    Accounted (past ++ [event]) ⟨book, s.runs.set i run'⟩ where
  stages other hMem := by
    rcases List.mem_or_eq_of_mem_set hMem with hMem | rfl
    · exact h.stages other hMem
    · exact stage
  balance := by
    have hHands : (inHands ⟨book, s.runs.set i run'⟩ : Multiset PublishedRecord) +
        (inHand? run).toList = s.inHands + (inHand? run').toList :=
      coe_filterMap_set inHand? found run'
    rw [published, removed, dropped, coe_filterMap_concat, coe_filterMap_concat,
      coe_filterMap_concat]
    apply add_right_cancel (b := ((inHand? run).toList : Multiset PublishedRecord))
    calc (published past : Multiset PublishedRecord) + event.published?.toList +
          (inHand? run).toList
        = removed past + dropped past + s.inHands +
          (event.published?.toList + (inHand? run).toList + s.book.values) := by
          rw [h.balance]
          abel
      _ = removed past + dropped past + s.inHands +
          (event.removed?.toList + event.dropped?.toList + (inHand? run').toList +
            book.values) := by
          rw [shift.balance]
      _ = removed past + event.removed?.toList + (dropped past + event.dropped?.toList) +
          (s.inHands + (inHand? run').toList) + book.values := by
          abel
      _ = removed past + event.removed?.toList + (dropped past + event.dropped?.toList) +
          inHands ⟨book, s.runs.set i run'⟩ + book.values + (inHand? run).toList := by
          rw [← hHands]
          abel

end Accounted

theorem inHand?_provision (proofs : RecordProofs) (proof : Proof) :
    inHand? (proofs.provision proof) = none := by
  cases h : RecordProofs.recordOf proof with
  | error e => rw [provision_of_error proofs h, inHand?]
  | ok record =>
    obtain ⟨next, hNext, -⟩ := exists_provision_of_ok proofs h
    rw [hNext, inHand?]

theorem Run.accounted (h : Run proofs past s) : Accounted past s := by
  induction h with
  | new => exact ⟨fun _ hMem => absurd hMem List.not_mem_nil, rfl⟩
  | move m _ moves ih =>
    cases m with
    | provision proof =>
      cases moves
      exact ih.called (stage_provision proofs proof) (inHand?_provision proofs proof)
    | deprovision proof =>
      cases moves
      exact ih.called (stage_deprovision proofs proof) rfl
    | step i step =>
      obtain ⟨run, found, moves⟩ := Option.bind_eq_some_iff.mp moves
      obtain ⟨run', hRuns, stage, shift⟩ :=
        shift_of_stepOf? (ih.stages run (List.mem_of_getElem? found)) moves
      have hStep := ih.step found stage shift
      rwa [← hRuns] at hStep

/-! ### What is kept for a token -/

/-- What an event leaves kept for a token for which `before` was kept. -/
def keptAfter (token : String) (before : Option PublishedRecord) : Event → Option PublishedRecord
  | .remembered token' record _ => if token' = token then some record else before
  | .forgot token' _ => if token' = token then none else before
  | .called | .refused | .published _ | .removed _ | .unremoved _ => before

def kept (past : List Event) (token : String) : Option PublishedRecord :=
  past.foldl (keptAfter token) none

theorem Shift.get? {book book' : RecordBook} {hand hand' : Option PublishedRecord}
    (shift : Shift book hand event book' hand') (token : String) :
    book'.get? token = keptAfter token (book.get? token) event := by
  cases shift with
  | remembered token' record =>
    rw [keptAfter]
    split
    · next hToken => exact hToken ▸ Keyed.get?_put_self book token' record
    · next hToken => exact Keyed.get?_put_of_ne book record (Ne.symm hToken)
  | forgot token' =>
    rw [keptAfter]
    split
    · next hToken => exact hToken ▸ Keyed.get?_erase_self book token'
    · next hToken => exact Keyed.get?_erase_of_ne book (Ne.symm hToken)
  | refused | published | removed | unremoved => rfl

theorem Run.get?_book (h : Run proofs past s) (token : String) :
    s.book.get? token = kept past token := by
  induction h with
  | new => rfl
  | @move past s t event m run moves ih =>
    rw [kept, List.foldl_append, ← kept, ← ih]
    cases m with
    | provision | deprovision =>
      cases moves
      rfl
    | step i step =>
      obtain ⟨run', found, moves⟩ := Option.bind_eq_some_iff.mp moves
      obtain ⟨_, _, _, shift⟩ :=
        shift_of_stepOf? (run.accounted.stages run' (List.mem_of_getElem? found)) moves
      exact shift.get? token

/-! ### What the size of the book counts -/

theorem dropped_eq_nil_iff : dropped past = [] ↔ (∀ record, .unremoved record ∉ past) ∧
    ∀ token record before, .remembered token record (some before) ∉ past := by
  rw [dropped, List.filterMap_eq_nil_iff]
  constructor
  · intro h
    refine ⟨fun record hMem => ?_, fun token record before hMem => ?_⟩
    · cases h _ hMem
    · cases h _ hMem
  · rintro ⟨hRemovals, hTokens⟩ event hMem
    cases event with
    | unremoved record => exact absurd hMem (hRemovals record)
    | remembered token record before =>
      cases before with
      | none => rfl
      | some before => exact absurd hMem (hTokens token record before)
    | called | refused | published | forgot | removed => rfl

/-- The book holds all that is published and not removed as long as no removal has failed and no
token was shown again before its record was removed. -/
structure Tracked (past : List Event) (s : RecordKeeping) : Prop where
  accounted : (published past : Multiset PublishedRecord) =
    removed past + dropped past + s.inHands + s.book.values
  counted : (published past).length =
    (removed past).length + (dropped past).length + s.inHands.length + s.book.size
  complete : s.inHands = [] → ((published past).length = (removed past).length + s.book.size ↔
    (∀ record, .unremoved record ∉ past) ∧
      ∀ token record before, .remembered token record (some before) ∉ past)
  latest : ∀ token, s.book.get? token = kept past token

theorem Run.tracked (h : Run proofs past s) : Tracked past s := by
  have hCounted : (published past).length =
      (removed past).length + (dropped past).length + s.inHands.length + s.book.size := by
    have hCard := congrArg Multiset.card h.accounted.balance
    simpa only [Multiset.card_add, Multiset.coe_card, Keyed.card_values] using hCard
  refine ⟨h.accounted.balance, hCounted, fun hHands => ?_, h.get?_book⟩
  rw [← dropped_eq_nil_iff, ← List.length_eq_zero_iff]
  rw [hHands, List.length_nil] at hCounted
  omega

/-- The removal of the record of a token fails. The book says that nothing is published, and taking
the proof away once more is a success without a call to the name service. -/
theorem untracked_of_failed_removal :
    let proof : Proof := ⟨.dns "a.com", "b", ⟨.curve .p256 1 (by decide), none⟩⟩
    ∃ text s, RecordProofs.recordOf proof = .ok text ∧
      let record : PublishedRecord := ⟨"rec-1", text⟩
      let past : List Event := [.called, .published record, .remembered "b" record none,
        .called, .forgot "b" (some record), .unremoved record, .called, .forgot "b" none]
      Run ⟨"route"⟩ past s ∧ s.inHands = [] ∧ removed past = [] ∧ s.book.size = 0 ∧
        (published past).length ≠ (removed past).length + s.book.size := by
  intro proof
  obtain ⟨text, hText⟩ : ∃ text, RecordProofs.recordOf proof = .ok text :=
    exists_recordOf _ _ (by decide) (by decide)
  have start : Run ⟨"route"⟩ [] new := .new
  have shown := start.provisioned hText ⟨"rec-1", text⟩
  have failed := shown.unremoved (Keyed.get?_put_self _ _ _) (.refused "down")
  have again := failed.nothing_taken proof (Keyed.get?_erase_self _ _)
  exact ⟨text, _, hText, again, rfl, rfl, rfl, nofun⟩

/-- A token is shown twice. Of the first record the book knows nothing any more. -/
theorem tracked_of_repeated_token :
    let proof : Proof := ⟨.dns "a.com", "b", ⟨.curve .p256 1 (by decide), none⟩⟩
    ∃ text s, RecordProofs.recordOf proof = .ok text ∧
      let past : List Event := [.called, .published ⟨"rec-1", text⟩,
        .remembered "b" ⟨"rec-1", text⟩ none, .called, .published ⟨"rec-2", text⟩,
        .remembered "b" ⟨"rec-2", text⟩ (some ⟨"rec-1", text⟩)]
      Run ⟨"route"⟩ past s ∧ s.book.size = 1 ∧ Tracked past s := by
  intro proof
  obtain ⟨text, hText⟩ : ∃ text, RecordProofs.recordOf proof = .ok text :=
    exists_recordOf _ _ (by decide) (by decide)
  have start : Run ⟨"route"⟩ [] new := .new
  have first := start.provisioned hText ⟨"rec-1", text⟩
  have second := first.provisioned hText ⟨"rec-2", text⟩
  exact ⟨text, _, hText, second, rfl, second.tracked⟩

end RecordKeeping

end Enrollment
