import Enrollment.Issuing.Startup
import Enrollment.Proofs.Settings.Reading

/-! # Starting with settings that were read

The numbers of workers and of places may be any that a word holds, but only some of them can be
started with: a queue has a limit far below, and the list of the tasks has one of its own.
-/

namespace Enrollment

namespace OrchestratorSettings

theorem queuePlaces_of_ne_zero {capacity : Nat} (h : capacity ≠ 0) : queuePlaces capacity =
    if 0x1fffffffffffffff < capacity then .error .queueTooLarge else .ok capacity := by
  rw [queuePlaces, if_neg h]
  rfl

theorem taskPlaces_eq (workers : Nat) : taskPlaces workers =
    if 0xffffffffffffffff < workers + 1 then .error .countOverflow
    else if 0x7fffffffffffffff < (workers + 1) * 8 then .error .listTooLarge
    else .ok (workers + 1) := rfl

/-- The limits are met in this order. -/
theorem start_eq (settings : OrchestratorSettings) : settings.start =
    if 0x1fffffffffffffff < max settings.queueCapacity 1 then .error .queueTooLarge
    else if 0xffffffffffffffff < max settings.workers 1 + 1 then .error .countOverflow
    else if 0x7fffffffffffffff < (max settings.workers 1 + 1) * 8 then .error .listTooLarge
    else .ok (.new (max settings.workers 1) (max settings.queueCapacity 1)) := by
  have hPlaces : max settings.queueCapacity 1 ≠ 0 := by omega
  rw [start, queuePlaces_of_ne_zero hPlaces]
  dsimp only
  rw [taskPlaces_eq]
  split
  · rfl
  · split
    · rfl
    · split <;> rfl

end OrchestratorSettings

namespace Settings

variable {settings : Settings}

theorem bounds_of_holds {given : Variables} (h : Holds given settings) :
    (1 ≤ settings.workers ∧ settings.workers ≤ 0xffffffffffffffff) ∧
      1 ≤ settings.queueCapacity ∧ settings.queueCapacity ≤ 0xffffffffffffffff := by
  obtain ⟨value, hValue, rfl⟩ := h
  constructor
  · apply (hValue .workers).induct
      (P := fun n : Nat => 1 ≤ n ∧ n ≤ 0xffffffffffffffff) (by decide)
    intro text n hCount
    exact ⟨hCount.pos, hCount.le_limit⟩
  · apply (hValue .queueCapacity).induct
      (P := fun n : Nat => 1 ≤ n ∧ n ≤ 0xffffffffffffffff) (by decide)
    intro text n hCount
    exact ⟨hCount.pos, hCount.le_limit⟩

theorem start_orchestrator (hWorkers : 1 ≤ settings.workers)
    (hCapacity : 1 ≤ settings.queueCapacity) : settings.orchestrator.start =
      if 0x1fffffffffffffff < settings.queueCapacity then .error .queueTooLarge
      else if 0xffffffffffffffff < settings.workers + 1 then .error .countOverflow
      else if 0x7fffffffffffffff < (settings.workers + 1) * 8 then .error .listTooLarge
      else .ok (.new settings.workers settings.queueCapacity) := by
  have hStart := settings.orchestrator.start_eq
  rwa [orchestrator, Nat.max_eq_left hWorkers, Nat.max_eq_left hCapacity] at hStart

/-- With which of the settings that are read a workforce can be started, and what stops the
others. -/
theorem start_ofLookup (lookup : String → Option String) (settings : Settings)
    (h : ofLookup lookup = .ok settings) :
    (settings.orchestrator.start = .ok (.new settings.workers settings.queueCapacity) ↔
        settings.queueCapacity ≤ 0x1fffffffffffffff ∧ settings.workers ≤ 0xffffffffffffffe) ∧
      (settings.orchestrator.start = .error .queueTooLarge ↔
        0x1fffffffffffffff < settings.queueCapacity) ∧
      (settings.orchestrator.start = .error .countOverflow ↔
        settings.queueCapacity ≤ 0x1fffffffffffffff ∧ settings.workers = 0xffffffffffffffff) ∧
      (settings.orchestrator.start = .error .listTooLarge ↔
        settings.queueCapacity ≤ 0x1fffffffffffffff ∧ 0xffffffffffffffe < settings.workers ∧
          settings.workers < 0xffffffffffffffff) ∧
      (1 ≤ settings.workers ∧ settings.workers ≤ 0xffffffffffffffff) ∧
      1 ≤ settings.queueCapacity ∧ settings.queueCapacity ≤ 0xffffffffffffffff := by
  have hBounds := bounds_of_holds (holds_of_ofVariables h)
  have hStart := start_orchestrator hBounds.1.1 hBounds.2.1
  refine ⟨?_, ?_, ?_, ?_, hBounds⟩
  -- Which of the limits is met first is a question of the two numbers alone.
  all_goals
    rw [hStart]
    grind

theorem start_ofLookup_eightWorkers :
    eightWorkerSettings.orchestrator.start = .ok (.new 8 64) :=
  (start_ofLookup eightWorkers _ ofLookup_eightWorkers).1.mpr ⟨by decide, by decide⟩

def manyPlaces (key : String) : Option String :=
  if key = queueCapacityKey then some "2305843009213693952" else none

def manyWorkers (key : String) : Option String :=
  if key = workersKey then some "18446744073709551615" else none

/-- Settings that were accepted but cannot be started with. -/
theorem unstartable_of_manyPlaces :
    (∃ settings, ofLookup manyPlaces = .ok settings ∧
        settings.orchestrator.start = .error .queueTooLarge) ∧
      ∃ settings, ofLookup manyWorkers = .ok settings ∧
        settings.orchestrator.start = .error .countOverflow := by
  constructor
  · refine ⟨{ eightWorkerSettings with
      workers := 3, queueCapacity := 2305843009213693952, autoOrdering := true }, ?_, ?_⟩
    · decide +kernel
    · rfl
  · refine ⟨{ eightWorkerSettings with
      workers := 18446744073709551615, autoOrdering := true }, ?_, ?_⟩
    · decide +kernel
    · rfl

end Settings

end Enrollment
