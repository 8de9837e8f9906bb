import Enrollment.Proofs.SingleFlight.Agreement
import Enrollment.Proofs.SingleFlight.Ending

/-! # Where results come from

What is known of the results that callers have worked for is known of those that they return: a
result is a caller's own, or it was worked for by another caller with the same key.
-/

namespace Enrollment.SingleFlight

variable {κ ν ε : Type} [DecidableEq κ]

omit [DecidableEq κ] in
theorem found_of_ending? {s : SingleFlight κ ν ε} {i : Nat} {result : Except ε ν}
    (h : s.ending? i = some (some result)) :
    ∃ c : Caller κ ν ε, s.callers[i]? = some c ∧ c.phase = .returned result := by
  obtain ⟨phase, hPhase, hEnding⟩ := Option.bind_eq_some_iff.mp h
  obtain ⟨c, found, rfl⟩ := Option.map_eq_some_iff.mp hPhase
  refine ⟨c, found, ?_⟩
  cases hCaller : c.phase <;> rw [hCaller] at hEnding <;> cases hEnding
  rfl

/-- A run tells of results only that are as they should be, of those who worked for them. -/
def WorksTo (good : Nat → Except ε ν → Prop) (s : SingleFlight κ ν ε) : Prop :=
  ∃ past, Run past s ∧ ∀ i f result, .worked i f (some result) ∈ past → good i result

namespace WorksTo

variable {good good' : Nat → Except ε ν → Prop} {s t : SingleFlight κ ν ε}

theorem empty (good : Nat → Except ε ν → Prop) : (empty : SingleFlight κ ν ε).WorksTo good :=
  ⟨[], .start, nofun⟩

theorem mono (h : s.WorksTo good) (imp : ∀ i result, good i result → good' i result) :
    s.WorksTo good' := by
  obtain ⟨past, run, worked⟩ := h
  exact ⟨past, run, fun i f result hMem => imp i result (worked i f result hMem)⟩

theorem call (h : s.WorksTo good) (key : κ) : (s.call key).1.WorksTo good := by
  obtain ⟨past, run, worked⟩ := h
  refine ⟨_, .move (.call key) run rfl rfl, fun i f result hMem => ?_⟩
  rcases List.mem_append.mp hMem with hMem | hMem
  · exact worked i f result hMem
  · cases List.mem_singleton.mp hMem

theorem callAll (h : s.WorksTo good) (keys : List κ) : (s.callAll keys).1.WorksTo good := by
  induction keys generalizing s with
  | nil => exact h
  | cons key keys ih => exact ih (h.call key)

theorem step (h : s.WorksTo good) {i : Nat} {step : Step ν ε}
    (finish : ∀ result, step = .finish result → good i result) (moves : s.step? i step = some t) :
    t.WorksTo good := by
  obtain ⟨past, run, worked⟩ := h
  obtain ⟨e, shows⟩ := exists_event_of_step? moves
  refine ⟨_, .move (.step i step) run shows moves, fun j f result hMem => ?_⟩
  rcases List.mem_append.mp hMem with hMem | hMem
  · exact worked j f result hMem
  · obtain ⟨rfl, hStep⟩ := (eq_of_event?_step shows).2 j f result (List.mem_singleton.mp hMem).symm
    exact finish result hStep

/-- Who has worked, or returns an error, returns what it has worked for itself. -/
theorem of_returned (h : s.WorksTo good) {i : Nat} {c : Caller κ ν ε}
    (found : s.callers[i]? = some c) {result : Except ε ν} (phase : c.phase = .returned result) :
    ∃ (j : Nat) (d : Caller κ ν ε), s.callers[j]? = some d ∧ d.key = c.key ∧ good j result ∧
      ((c.runs ≠ 0 ∨ ∃ e, result = .error e) → j = i) := by
  obtain ⟨past, run, worked⟩ := h
  have hStory := run.told.story i c found
  rw [phase] at hStory
  -- A result is the caller's own, or a value that another has shared with it. Errors are not shared.
  rcases hStory.of_returned with ⟨f, -, hWorked⟩ | ⟨f, value, rfl, -, hShared⟩
  · exact ⟨i, c, found, rfl, worked i f result (Run.mem_own.mp hWorked).1, fun _ => rfl⟩
  · obtain ⟨j, g, hStarted, hWorked⟩ := run.worked_of_returned found phase
    obtain ⟨d, -, foundOwner, hKey, -⟩ := run.orderly.course_of_started hStarted
    refine ⟨j, d, foundOwner, hKey, worked j g _ hWorked, ?_⟩
    rintro (hRuns | ⟨e, hError⟩)
    · exact absurd (hStory.of_shared_mem hShared).1 hRuns
    · cases hError

end WorksTo

end Enrollment.SingleFlight
