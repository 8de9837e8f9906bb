import Enrollment.Proofs.SingleFlight.Agreement

/-! # How callers come to their ends

What a caller ends with it keeps. Whatever has happened, all callers can still come to their ends
without any of them being dropped: a caller that has not ended waits for nobody but the owner of a
flight, and an owner waits for nobody.
-/

namespace Enrollment.SingleFlight

variable {κ ν ε : Type}

theorem ending?_ended (result : Option (Except ε ν)) :
    (Phase.ended result).ending? = some result := by
  cases result <;> rfl

theorem ending?_of_owned {phase : Phase ν ε} {f : Nat} (owned : phase.owned? = some f) :
    phase.ending? = none := by
  cases phase <;> first | rfl | cases owned

theorem owned_or_idle {phase : Phase ν ε} (going : phase.ending? = none) :
    (∃ f, phase.owned? = some f) ∨ phase = .starting ∨ ∃ f, phase = .waiting f := by
  cases phase with
  | starting => exact .inr (.inl rfl)
  | waiting f => exact .inr (.inr ⟨f, rfl⟩)
  | working f | ending f | publishing f => exact .inl ⟨f, rfl⟩
  | returned | dropped => cases going

theorem ending?_of_found {s : SingleFlight κ ν ε} {i : Nat} {c : Caller κ ν ε}
    (found : s.callers[i]? = some c) : s.ending? i = c.phase.ending? := by
  rw [ending?, phase?, found]
  rfl

theorem ending?_of_callers {s t : SingleFlight κ ν ε} {i : Nat}
    (h : t.callers[i]? = s.callers[i]?) : t.ending? i = s.ending? i := by
  rw [ending?, ending?, phase?, phase?, h]

/-- Steps one after another, in which nobody is dropped and work comes to what it can come to. -/
inductive Goes [DecidableEq κ] (works : Nat → Except ε ν → Prop) :
    SingleFlight κ ν ε → SingleFlight κ ν ε → Prop where
  | here (s : SingleFlight κ ν ε) : Goes works s s
  | step {s t u : SingleFlight κ ν ε} (i : Nat) (step : Step ν ε) (kept : step ≠ .drop)
    (worked : ∀ result, step = .finish result → works i result) (moves : s.step? i step = some t)
    (rest : Goes works t u) : Goes works s u

/-- How many callers have not ended. -/
def going (s : SingleFlight κ ν ε) : Nat := s.callers.countP fun c => c.phase.ending?.isNone

variable [DecidableEq κ] {works : Nat → Except ε ν → Prop} {s t u : SingleFlight κ ν ε}
  {e : Event κ ν ε} {i f : Nat} {c : Caller κ ν ε}

theorem Change.ending?_kept {result : Option (Except ε ν)} (change : Change s e t)
    (h : s.ending? i = some result) : t.ending? i = some result := by
  obtain ⟨phase, hPhase, hEnding⟩ := Option.bind_eq_some_iff.mp h
  obtain ⟨c, found, rfl⟩ := Option.map_eq_some_iff.mp hPhase
  suffices hFound : t.callers[i]? = some c by rw [ending?_of_found hFound, hEnding]
  have hOther {j : Nat} {d d' : Caller κ ν ε} (hd : s.callers[j]? = some d)
      (going : d.phase.ending? = none) : (s.callers.set j d')[i]? = some c := by
    have hIndex : j ≠ i := by
      rintro rfl
      obtain rfl := Option.some.inj (found.symm.trans hd)
      cases going.symm.trans hEnding
    exact (List.getElem?_set_ne hIndex).trans found
  cases change with
  | called key => exact getElem?_append_of_some _ found
  | @left _ d foundThen idle =>
    refine hOther foundThen ?_
    cases hPhase : d.phase <;> rw [hPhase] at idle <;> first | rfl | cases idle
  | joined foundThen phase | started foundThen phase | worked _ foundThen phase
  | cleared foundThen phase | published foundThen phase | shared foundThen phase
  | missed foundThen phase => exact hOther foundThen (by rw [phase]; rfl)

theorem exists_event_of_step? {step : Step ν ε} (moves : s.step? i step = some t) :
    ∃ e, s.event? (.step i step) = some e := by
  refine Option.isSome_iff_exists.mp ?_
  rw [isSome_event?, move?, moves]
  rfl

theorem ending?_of_step? {step : Step ν ε} {result : Option (Except ε ν)} {j : Nat}
    (moves : s.step? i step = some t) (h : s.ending? j = some result) :
    t.ending? j = some result := by
  obtain ⟨e, shows⟩ := exists_event_of_step? moves
  exact (change_of_move? shows moves).ending?_kept h

/-- A step calls for nothing, and work ends with a result in that step only. -/
theorem eq_of_event?_step {step : Step ν ε} (shows : s.event? (.step i step) = some e) :
    (∀ j key, e ≠ .called j key) ∧
      ∀ j f result, e = .worked j f (some result) → j = i ∧ step = .finish result := by
  obtain ⟨c, -, shows⟩ := Option.bind_eq_some_iff.mp shows
  unfold eventOf? at shows
  split at shows
  case h_1 | h_7 =>
    split at shows <;> cases shows <;> exact ⟨fun _ _ => nofun, fun _ _ _ => nofun⟩
  case h_2 | h_4 | h_5 | h_6 | h_8 =>
    cases shows
    exact ⟨fun _ _ => nofun, fun _ _ _ => nofun⟩
  case h_3 =>
    cases shows
    refine ⟨fun _ _ => nofun, ?_⟩
    rintro j f result ⟨⟩
    exact ⟨rfl, rfl⟩
  case h_9 => cases shows

omit [DecidableEq κ] in
theorem keys_set {c' : Caller κ ν ε} (found : s.callers[i]? = some c) (hKey : c'.key = c.key) :
    (s.callers.set i c').map Caller.key = s.callers.map Caller.key := by
  have hGet : (s.callers.map Caller.key)[i]? = some c'.key := by
    rw [List.getElem?_map, found, hKey]
    rfl
  obtain ⟨hlt, hSelf⟩ := List.getElem?_eq_some_iff.mp hGet
  rw [List.map_set, ← hSelf, List.set_getElem_self hlt]

theorem Change.keys_eq (change : Change s e t) (plain : ∀ j key, e ≠ .called j key) :
    t.callers.map Caller.key = s.callers.map Caller.key := by
  cases change with
  | called key => exact absurd rfl (plain _ key)
  | left found | joined found | started found | worked _ found | cleared found | published found
  | shared found | missed found => exact keys_set found rfl

theorem step?_finish (found : s.callers[i]? = some c) (phase : c.phase = .working f)
    (result : Except ε ν) :
    s.step? i (.finish result) = some (s.withPhase i c (.ending f (some result))) := by
  simp only [step?, found, Option.bind_some, stepOf?, phase]

theorem step?_register (found : s.callers[i]? = some c) (phase : c.phase = .starting) :
    s.step? i .register = some (s.register i c) := by
  simp only [step?, found, Option.bind_some, stepOf?, phase]

theorem step?_look_landed {value : ν} (found : s.callers[i]? = some c)
    (phase : c.phase = .waiting f) (landed : s.flights[f]? = some (.landed value)) :
    s.step? i .look = some (s.withPhase i c (.returned (.ok value))) := by
  simp only [step?, found, Option.bind_some, stepOf?, phase, landed]

theorem step?_look_failed (found : s.callers[i]? = some c) (phase : c.phase = .waiting f)
    (failed : s.flights[f]? = some .failed) :
    s.step? i .look = some (s.withPhase i c .starting) := by
  simp only [step?, found, Option.bind_some, stepOf?, phase, failed]

namespace Goes

theorem trans (h : Goes works s t) (hNext : Goes works t u) : Goes works s u := by
  induction h with
  | here => exact hNext
  | step i step kept worked moves rest ih => exact .step i step kept worked moves (ih hNext)

/-- A step that is not the end of work. -/
theorem single {step : Step ν ε} (moves : s.step? i step = some t) (kept : step ≠ .drop)
    (plain : ∀ result, step ≠ .finish result) : Goes works s t :=
  .step i step kept (fun result h => absurd h (plain result)) moves (.here t)

theorem reachable (h : Goes works s t) (start : Reachable s) : Reachable t := by
  induction h with
  | here => exact start
  | step i step kept worked moves rest ih => exact ih (.move (.step i step) start moves)

end Goes

/-! ### What an owner can do -/

/-- A caller can come to its end while all others stay where they are. -/
def CanEnd (works : Nat → Except ε ν → Prop) (s : SingleFlight κ ν ε) (i : Nat)
    (c : Caller κ ν ε) : Prop :=
  ∃ t result, Goes works s t ∧ t.callers = s.callers.set i { c with phase := .ended result }

theorem CanEnd.before {phase : Phase ν ε} (h : CanEnd works t i { c with phase })
    (goes : Goes works s t) (hCallers : t.callers = s.callers.set i { c with phase }) :
    CanEnd works s i c := by
  obtain ⟨u, result, hRest, hEnd⟩ := h
  refine ⟨u, result, goes.trans hRest, ?_⟩
  rw [hEnd, hCallers, List.set_set]

theorem canEnd_of_publishing {result : Option (Except ε ν)} (found : s.callers[i]? = some c)
    (phase : c.phase = .publishing f result) : CanEnd works s i c :=
  ⟨_, result, .single (step?_publish found phase) nofun nofun, rfl⟩

theorem canEnd_of_ending {result : Option (Except ε ν)} (found : s.callers[i]? = some c)
    (phase : c.phase = .ending f result) : CanEnd works s i c := by
  have cleared : Goes works s _ := .single (step?_clear found phase) nofun nofun
  refine CanEnd.before ?_ cleared rfl
  exact canEnd_of_publishing (getElem?_set_of_found found _) rfl

theorem canEnd_of_working {result : Except ε ν} (found : s.callers[i]? = some c)
    (phase : c.phase = .working f) (hWorks : works i result) : CanEnd works s i c := by
  have finished : Goes works s (s.withPhase i c (.ending f (some result))) := by
    refine .step i (.finish result) nofun ?_ (step?_finish found phase result) (.here _)
    rintro other ⟨⟩
    exact hWorks
  refine CanEnd.before ?_ finished rfl
  exact canEnd_of_ending (getElem?_set_of_found found _) rfl

theorem canEnd_of_owned (hWorks : ∃ result, works i result) (found : s.callers[i]? = some c)
    (owned : c.phase.owned? = some f) : CanEnd works s i c := by
  cases hPhase : c.phase with
  | working g =>
    obtain ⟨result, hResult⟩ := hWorks
    exact canEnd_of_working found hPhase hResult
  | ending g result => exact canEnd_of_ending found hPhase
  | publishing g result => exact canEnd_of_publishing found hPhase
  | starting | waiting | returned | dropped =>
    rw [hPhase] at owned
    cases owned

/-! ### What any caller can wait for -/

omit [DecidableEq κ] in
theorem going_lt {c' : Caller κ ν ε} (found : s.callers[i]? = some c)
    (going : c.phase.ending? = none) (hEnded : c'.phase.ending? ≠ none)
    (hCallers : t.callers = s.callers.set i c') : t.going < s.going := by
  have hAdd := countP_set_add found c' fun c => c.phase.ending?.isNone
  rw [← hCallers, if_pos (by rw [going]; rfl),
    if_neg (by rw [Option.isNone_iff_eq_none]; exact hEnded)] at hAdd
  rw [SingleFlight.going, SingleFlight.going]
  omega

omit [DecidableEq κ] in
theorem going_eq {c' : Caller κ ν ε} (found : s.callers[i]? = some c)
    (going : c.phase.ending? = none) (hGoing : c'.phase.ending? = none)
    (hCallers : t.callers = s.callers.set i c') : t.going = s.going := by
  have hSame := countP_set_eq found (p := fun c => c.phase.ending?.isNone)
    (show c'.phase.ending?.isNone = c.phase.ending?.isNone by rw [going, hGoing])
  rwa [← hCallers] at hSame

theorem exists_fewer_of_owned (hWorks : ∀ i, ∃ result, works i result)
    (found : s.callers[i]? = some c) (owned : c.phase.owned? = some f) :
    ∃ t, Goes works s t ∧ t.going < s.going := by
  obtain ⟨t, result, goes, hCallers⟩ := canEnd_of_owned (hWorks i) found owned
  refine ⟨t, goes, going_lt found (ending?_of_owned owned) ?_ hCallers⟩
  rw [ending?_ended]
  exact nofun

theorem exists_fewer_of_starting (hWorks : ∀ i, ∃ result, works i result) (h : Reachable s)
    (found : s.callers[i]? = some c) (phase : c.phase = .starting) :
    ∃ t, Goes works s t ∧ t.going < s.going := by
  obtain ⟨past, run⟩ := h.exists_run
  cases hInAir : s.inAir.get? c.key with
  | some g =>
    obtain ⟨j, d, foundOwner, -, flown⟩ := (run.orderly.inAir c.key g).mp hInAir
    exact exists_fewer_of_owned hWorks foundOwner (owned?_of_flown? flown)
  | none =>
    let started : Caller κ ν ε := { c with runs := c.runs + 1, phase := .working s.flights.length }
    have hCallers : (s.register i c).callers = s.callers.set i started := by
      simp only [register, hInAir, started]
    have foundThen : (s.register i c).callers[i]? = some started := by
      rw [hCallers, getElem?_set_of_found found]
    obtain ⟨t, goes, hFewer⟩ := exists_fewer_of_owned hWorks foundThen rfl
    have moves := step?_register found phase
    refine ⟨t, .trans (.single moves (by simp) (by simp)) goes, ?_⟩
    exact Nat.lt_of_lt_of_eq hFewer (going_eq found (by rw [phase]; rfl) rfl hCallers)

theorem exists_fewer_of_waiting (hWorks : ∀ i, ∃ result, works i result) (h : Reachable s)
    (found : s.callers[i]? = some c) (phase : c.phase = .waiting f) :
    ∃ t, Goes works s t ∧ t.going < s.going := by
  obtain ⟨past, run⟩ := h.exists_run
  have going : c.phase.ending? = none := by rw [phase]; rfl
  obtain ⟨state, hState⟩ : ∃ state, s.flights[f]? = some state :=
    ⟨_, List.getElem?_eq_getElem (run.orderly.waited i f c found phase)⟩
  cases state with
  | running =>
    obtain ⟨j, d, foundOwner, owned⟩ := run.orderly.owned_of_running hState
    exact exists_fewer_of_owned hWorks foundOwner owned
  | landed value =>
    have moves := step?_look_landed found phase hState
    refine ⟨_, .single moves nofun nofun, going_lt found going ?_ rfl⟩
    exact nofun
  | failed =>
    have moves := step?_look_failed found phase hState
    obtain ⟨t, goes, hFewer⟩ := exists_fewer_of_starting hWorks (.move (.step i .look) h moves)
      (getElem?_set_of_found found _) rfl
    refine ⟨t, .trans (.single moves nofun nofun) goes, Nat.lt_of_lt_of_eq hFewer ?_⟩
    exact going_eq found going rfl rfl

theorem exists_fewer (hWorks : ∀ i, ∃ result, works i result) (h : Reachable s)
    (found : s.callers[i]? = some c) (going : c.phase.ending? = none) :
    ∃ t, Goes works s t ∧ t.going < s.going := by
  rcases owned_or_idle going with ⟨f, owned⟩ | phase | ⟨f, phase⟩
  · exact exists_fewer_of_owned hWorks found owned
  · exact exists_fewer_of_starting hWorks h found phase
  · exact exists_fewer_of_waiting hWorks h found phase

/-- All callers can come to their ends. -/
theorem Reachable.exists_ended (hWorks : ∀ i, ∃ result, works i result) (h : Reachable s) :
    ∃ t, Goes works s t ∧ ∀ c ∈ t.callers, c.phase.ending? ≠ none := by
  generalize hCount : s.going = count
  induction count using Nat.strongRecOn generalizing s with
  | ind count ih =>
    by_cases hGoing : ∃ c ∈ s.callers, c.phase.ending? = none
    · obtain ⟨c, hMem, going⟩ := hGoing
      obtain ⟨i, found⟩ := List.getElem?_of_mem hMem
      obtain ⟨t, goes, hFewer⟩ := exists_fewer hWorks h found going
      obtain ⟨u, hRest, hAll⟩ := ih t.going (hCount ▸ hFewer) (goes.reachable h) rfl
      exact ⟨u, goes.trans hRest, hAll⟩
    · exact ⟨s, .here s, fun c hMem going => hGoing ⟨c, hMem, going⟩⟩

end Enrollment.SingleFlight
