import Enrollment.Proofs.SingleFlight.Course

/-! # Exclusion

The flights of one key come one after another, and nobody waits for a flight whose owner is gone.
-/

namespace Enrollment.SingleFlight

variable {κ ν ε : Type} [DecidableEq κ]

/-- Nobody joins a flight after its key has been removed. -/
theorem Run.not_cleared_of_joined {past before after : List (Event κ ν ε)}
    {s : SingleFlight κ ν ε} (h : Run past s) {i f : Nat}
    (hPast : past = before ++ .joined i f :: after) (j : Nat) : .cleared j f ∉ before := by
  obtain ⟨t, u, run, change⟩ := h.change_at hPast
  cases change with
  | joined found phase inAir => exact ((run.orderly.inAir_iff _ _).mp inAir).2 j

theorem Run.not_joined_of_missed {past before after : List (Event κ ν ε)}
    {s : SingleFlight κ ν ε} (h : Run past s) {i f : Nat}
    (hPast : past = before ++ .missed i f :: after) : .joined i f ∉ after := by
  intro hJoined
  obtain ⟨t, u, run, change⟩ := h.change_at hPast
  obtain ⟨middle, rest, rfl⟩ := List.append_of_mem hJoined
  cases change with
  | missed found phase failed =>
    obtain ⟨j, hCleared⟩ := run.orderly.cleared_of_not_running failed (by simp)
    rw [← List.cons_append, ← List.append_assoc] at hPast
    exact h.not_cleared_of_joined hPast j (List.mem_append_left _ hCleared)

/-- Flights of one key exclude each other, and everyone that waits waits for something. -/
structure Exclusive (past : List (Event κ ν ε)) (s : SingleFlight κ ν ε) : Prop where
  one_work : ∀ (i j f g : Nat) (c d : Caller κ ν ε), s.callers[i]? = some c →
    s.callers[j]? = some d → c.phase = .working f → d.phase = .working g → c.key = d.key → i = j
  work_inAir : ∀ (i f : Nat) (c : Caller κ ν ε), s.callers[i]? = some c →
    c.phase = .working f → s.inAir.get? c.key = some f
  inAir_iff : ∀ key f, s.inAir.get? key = some f ↔
    (∃ i, .started i f key ∈ past) ∧ ∀ i, .cleared i f ∉ past
  /-- What was done to a flight is a beginning of its course: an owner that is through with it has
  removed its key once, before the one publication, whatever became of the work. -/
  course : ∀ i f key, .started i f key ∈ past →
    ∃ (c : Caller κ ν ε) (state : Flight ν), s.callers[i]? = some c ∧ c.key = key ∧
      s.flights[f]? = some state ∧ Course i f key c.phase state (past.filter (Event.isOf f))
  cleared_own : ∀ i f, .cleared i f ∈ past → ∃ key, .started i f key ∈ past
  /-- An owner whose work is over can remove its key, and removes its own flight and no other. -/
  clear : ∀ (i f : Nat) (c : Caller κ ν ε) (result : Option (Except ε ν)),
    s.callers[i]? = some c → c.phase = .ending f result →
    s.inAir.get? c.key = some f ∧ ∃ t, s.step? i .clear = some t ∧ t.inAir.get? c.key = none ∧
      ∀ key, key ≠ c.key → t.inAir.get? key = s.inAir.get? key
  publish : ∀ (i f : Nat) (c : Caller κ ν ε) (result : Option (Except ε ν)),
    s.callers[i]? = some c → c.phase = .publishing f result →
    ∃ t, s.step? i .publish = some t ∧ t.flights[f]? = some (.ofResult result) ∧
      t.inAir = s.inAir
  /-- A flight that is waited for has an outcome, or an owner that is to publish it. -/
  waited : ∀ (i f : Nat) (c : Caller κ ν ε), s.callers[i]? = some c → c.phase = .waiting f →
    (∃ value, s.flights[f]? = some (.landed value)) ∨ s.flights[f]? = some .failed ∨
      s.flights[f]? = some .running ∧
        ∃ (j : Nat) (d : Caller κ ν ε), s.callers[j]? = some d ∧ d.phase.owned? = some f
  not_joined_cleared : ∀ before i f after, past = before ++ .joined i f :: after →
    ∀ j, .cleared j f ∉ before
  not_joined_missed : ∀ before i f after, past = before ++ .missed i f :: after →
    .joined i f ∉ after

theorem Run.exclusive {past : List (Event κ ν ε)} {s : SingleFlight κ ν ε} (h : Run past s) :
    Exclusive past s where
  one_work i j f g c d hc hd hcPhase hdPhase hKey := by
    have hi : Flies s.callers i c.key f := ⟨c, hc, rfl, by rw [hcPhase]; rfl⟩
    have hj : Flies s.callers j c.key g := ⟨d, hd, hKey.symm, by rw [hdPhase]; rfl⟩
    exact (h.orderly.flies_eq hi hj).1
  work_inAir i f c found phase := h.orderly.get?_of_flown found (by rw [phase]; rfl)
  inAir_iff := h.orderly.inAir_iff
  course i f key hStarted := h.orderly.course_of_started hStarted
  cleared_own i f hCleared := by
    have hMem := Orderly.mem_filter_cleared.mpr hCleared
    have hlt : f < s.flights.length := by
      refine Nat.lt_of_not_le fun hFresh => ?_
      rw [h.orderly.fresh f hFresh] at hMem
      cases hMem
    obtain ⟨j, c, -, hCourse⟩ := h.orderly.course f _ (List.getElem?_eq_getElem hlt)
    obtain rfl := hCourse.caller_eq_of_cleared hMem
    exact ⟨c.key, (List.mem_filter.mp hCourse.started_mem).1⟩
  clear i f c result found phase := by
    exact ⟨h.orderly.get?_of_flown found (by rw [phase]; rfl), _, step?_clear found phase,
      Keyed.get?_erase_self _ _, fun key hKey => Keyed.get?_erase_of_ne _ hKey⟩
  publish i f c result found phase := by
    have hlt := h.orderly.lt_of_owned (f := f) found (by rw [phase]; rfl)
    exact ⟨_, step?_publish found phase, List.getElem?_set_self hlt, rfl⟩
  waited i f c found phase := by
    have hlt := h.orderly.waited i f c found phase
    have hState := List.getElem?_eq_getElem hlt
    cases hFlight : s.flights[f] with
    | running =>
      rw [hFlight] at hState
      exact .inr (.inr ⟨hState, h.orderly.owned_of_running hState⟩)
    | landed value => exact .inl ⟨value, by rw [hState, hFlight]⟩
    | failed => exact .inr (.inl (by rw [hState, hFlight]))
  not_joined_cleared before i f after hPast j := h.not_cleared_of_joined hPast j
  not_joined_missed before i f after hPast := h.not_joined_of_missed hPast

/-- The owner of a flight is dropped, and between its removal of the key and its publication a third
caller starts the next flight, which the second one joins when it has looked. -/
theorem exclusive_of_dropped_owner :
    ∃ past, ∃ s : SingleFlight Nat Nat String, Run past s ∧ s.flights = [.failed, .running] ∧
      s.phase? 1 = some (.waiting 1) ∧ s.inAir.get? 7 = some 1 ∧ Exclusive past s := by
  obtain ⟨past, s, played, hFlights, hPhase, hInAir⟩ :
      ∃ past, ∃ s : SingleFlight Nat Nat String,
        empty.play? [.call 7, .call 7, .step 0 .register, .step 1 .register, .step 0 .drop,
          .step 0 .clear, .call 7, .step 2 .register, .step 0 .publish, .step 1 .look,
          .step 1 .register] = some (past, s) ∧
        s.flights = [.failed, .running] ∧ s.phase? 1 = some (.waiting 1) ∧
        s.inAir.get? 7 = some 1 := ⟨_, _, rfl, rfl, rfl, rfl⟩
  have run := Run.append .start played
  rw [List.nil_append] at run
  exact ⟨past, s, run, hFlights, hPhase, hInAir, Run.exclusive run⟩

end Enrollment.SingleFlight
