import Enrollment.Proofs.SingleFlight.History

/-! # Flights from start to end

A flight has one owner, who takes it through its course: the work, the removal of the key and the
publication, each once and in this order whatever becomes of the work. The keys in the air are those
of the owners that have not removed theirs.
-/

namespace Enrollment.SingleFlight

variable {κ ν ε : Type}

namespace Phase

/-- The flight whose outcome a caller has yet to publish. -/
def owned? : Phase ν ε → Option Nat
  | working f | ending f _ | publishing f _ => some f
  | starting | waiting _ | returned _ | dropped => none

/-- The flight that a caller has yet to take out of the air. -/
def flown? : Phase ν ε → Option Nat
  | working f | ending f _ => some f
  | publishing _ _ | starting | waiting _ | returned _ | dropped => none

end Phase

/-- How far a flight has come, by where its owner stands: its state, and all that its owner did. -/
inductive Course (i f : Nat) (key : κ) : Phase ν ε → Flight ν → List (Event κ ν ε) → Prop where
  | working : Course i f key (.working f) .running [.started i f key]
  | ending (result : Option (Except ε ν)) :
    Course i f key (.ending f result) .running [.started i f key, .worked i f result]
  | publishing (result : Option (Except ε ν)) :
    Course i f key (.publishing f result) .running
      [.started i f key, .worked i f result, .cleared i f]
  | ended (result : Option (Except ε ν)) :
    Course i f key (.ended result) (.ofResult result)
      [.started i f key, .worked i f result, .cleared i f, .published i f result]

theorem ofResult_ne_running (result : Option (Except ε ν)) :
    Flight.ofResult result ≠ .running := by
  rcases result with _ | _ | _ <;> intro h <;> cases h

theorem owned?_ended (result : Option (Except ε ν)) :
    (Phase.ended result : Phase ν ε).owned? = none := by
  cases result <;> rfl

namespace Course

variable {i j f g : Nat} {key key' : κ} {phase : Phase ν ε} {state : Flight ν}
  {events : List (Event κ ν ε)}

theorem owner_eq (h : Course i f key phase state events)
    (hStarted : Event.started j g key' ∈ events) : j = i ∧ g = f ∧ key' = key := by
  cases h <;> simp at hStarted <;> exact hStarted

theorem owned?_of_running (h : Course i f key phase .running events) : phase.owned? = some f := by
  generalize hState : Flight.running = state at h
  cases h with
  | ended result => exact absurd hState.symm (ofResult_ne_running result)
  | _ => rfl

theorem running_of_owned? (h : Course i f key phase state events)
    (owned : phase.owned? = some g) : state = .running := by
  cases h with
  | ended result =>
    rw [owned?_ended] at owned
    cases owned
  | _ => rfl

theorem of_working (h : Course i f key (.working g) state events) :
    events = [.started i f key] := by
  generalize hPhase : Phase.working g = phase at h
  cases h with
  | working => rfl
  | ended result => cases result <;> cases hPhase
  | _ => cases hPhase

theorem of_ending {result : Option (Except ε ν)}
    (h : Course i f key (.ending g result) state events) :
    events = [.started i f key, .worked i f result] := by
  generalize hPhase : Phase.ending g result = phase at h
  cases h with
  | ending => cases hPhase; rfl
  | ended result => cases result <;> cases hPhase
  | _ => cases hPhase

theorem of_publishing {result : Option (Except ε ν)}
    (h : Course i f key (.publishing g result) state events) :
    events = [.started i f key, .worked i f result, .cleared i f] := by
  generalize hPhase : Phase.publishing g result = phase at h
  cases h with
  | publishing => cases hPhase; rfl
  | ended result => cases result <;> cases hPhase
  | _ => cases hPhase

theorem flown?_iff (h : Course i f key phase state events) :
    phase.flown? = some f ↔ ∀ j, .cleared j f ∉ events := by
  cases h with
  | ended result => cases result <;> simp [Phase.ended, Phase.flown?]
  | _ => simp [Phase.flown?]

theorem cleared_of_over (h : Course i f key phase state events) (hState : state ≠ .running) :
    .cleared i f ∈ events := by
  cases h with
  | ended result => simp
  | _ => exact absurd rfl hState

theorem of_worked {result : Option (Except ε ν)} (h : Course i f key phase state events)
    (hWorked : .worked j f result ∈ events) :
    j = i ∧ (phase = .ending f result ∨ phase = .publishing f result ∨
      state = .ofResult result) := by
  cases h with
  | working => simp at hWorked
  | ending | publishing | ended =>
    obtain ⟨rfl, rfl⟩ : j = i ∧ result = _ := by simpa using hWorked
    simp

theorem worked_of_landed {value : ν} (h : Course i f key phase (.landed value) events) :
    .worked i f (some (.ok value)) ∈ events := by
  generalize hState : Flight.landed value = state at h
  cases h with
  | ended result =>
    rcases result with _ | _ | _ <;> cases hState
    simp
  | _ => cases hState

theorem started_mem (h : Course i f key phase state events) : .started i f key ∈ events := by
  cases h <;> exact List.mem_cons_self

theorem caller_eq_of_cleared (h : Course i f key phase state events)
    (hCleared : Event.cleared j f ∈ events) : j = i := by
  cases h with
  | publishing | ended => simpa using hCleared
  | _ => simp at hCleared

theorem isIdle_eq_false (h : Course i f key phase state events) : phase.isIdle = false := by
  cases h with
  | ended result => cases result <;> rfl
  | _ => rfl

theorem flight_eq (h : Course i f key phase state events) (owned : phase.owned? = some g) :
    g = f := by
  cases h with
  | ended result =>
    rw [owned?_ended] at owned
    cases owned
  | _ => exact (Option.some.inj owned).symm

end Course

/-- A caller keeps a flight of a key in the air. -/
def Flies (callers : List (Caller κ ν ε)) (i : Nat) (key : κ) (f : Nat) : Prop :=
  ∃ c, callers[i]? = some c ∧ c.key = key ∧ c.phase.flown? = some f

theorem owned?_of_flown? {phase : Phase ν ε} {f : Nat} (h : phase.flown? = some f) :
    phase.owned? = some f := by
  cases phase <;> first | exact h | cases h

variable [DecidableEq κ]

/-- What holds of flights and callers after a run. -/
structure Orderly (past : List (Event κ ν ε)) (s : SingleFlight κ ν ε) : Prop where
  started : ∀ (i f : Nat) (c : Caller κ ν ε), s.callers[i]? = some c →
    c.phase.owned? = some f → .started i f c.key ∈ past
  course : ∀ f state, s.flights[f]? = some state → ∃ i c, s.callers[i]? = some c ∧
    Course i f c.key c.phase state (past.filter (Event.isOf f))
  fresh : ∀ f, s.flights.length ≤ f → past.filter (Event.isOf f) = []
  waited : ∀ (i f : Nat) (c : Caller κ ν ε), s.callers[i]? = some c → c.phase = .waiting f →
    f < s.flights.length
  inAir : ∀ key f, s.inAir.get? key = some f ↔ ∃ i, Flies s.callers i key f

namespace Orderly

variable {past : List (Event κ ν ε)} {s t : SingleFlight κ ν ε} {e : Event κ ν ε}

omit [DecidableEq κ] in
theorem mem_course {i f : Nat} {key : κ} (hStarted : .started i f key ∈ past) :
    .started i f key ∈ past.filter (Event.isOf f) :=
  List.mem_filter.mpr ⟨hStarted, by simp [Event.isOf, Event.flight?]⟩

theorem lt_of_started (h : Orderly past s) {i f : Nat} {key : κ}
    (hStarted : .started i f key ∈ past) : f < s.flights.length := by
  refine Nat.lt_of_not_le fun hFresh => ?_
  have hMem := mem_course hStarted
  rw [h.fresh f hFresh] at hMem
  cases hMem

theorem lt_of_owned (h : Orderly past s) {i f : Nat} {c : Caller κ ν ε}
    (found : s.callers[i]? = some c) (owned : c.phase.owned? = some f) : f < s.flights.length :=
  h.lt_of_started (h.started i f c found owned)

theorem course_of_owned (h : Orderly past s) {i f : Nat} {c : Caller κ ν ε}
    (found : s.callers[i]? = some c) (owned : c.phase.owned? = some f) :
    ∃ state, s.flights[f]? = some state ∧
      Course i f c.key c.phase state (past.filter (Event.isOf f)) := by
  have hStarted := h.started i f c found owned
  have hState := List.getElem?_eq_getElem (h.lt_of_started hStarted)
  obtain ⟨j, d, hFound, hCourse⟩ := h.course f _ hState
  obtain ⟨rfl, -, -⟩ := hCourse.owner_eq (mem_course hStarted)
  obtain rfl : c = d := Option.some.inj (found.symm.trans hFound)
  exact ⟨_, hState, hCourse⟩

theorem owner_unique (h : Orderly past s) {i j f : Nat} {c d : Caller κ ν ε}
    (hi : s.callers[i]? = some c) (hj : s.callers[j]? = some d) (hc : c.phase.owned? = some f)
    (hd : d.phase.owned? = some f) : i = j := by
  obtain ⟨state, -, hCourse⟩ := h.course_of_owned hi hc
  exact (hCourse.owner_eq (mem_course (h.started j f d hj hd))).1.symm

omit [DecidableEq κ] in
theorem filter_own {f : Nat} (h : e.flight? = some f) :
    (past ++ [e]).filter (Event.isOf f) = past.filter (Event.isOf f) ++ [e] := by
  simp [List.filter_append, Event.isOf, h]

omit [DecidableEq κ] in
theorem filter_other {f : Nat} (h : e.flight? ≠ some f) :
    (past ++ [e]).filter (Event.isOf f) = past.filter (Event.isOf f) := by
  simp [List.filter_append, Event.isOf, h]

theorem started_step (h : Orderly past s) (change : Change s e t) (j f : Nat)
    (d : Caller κ ν ε) (hd : t.callers[j]? = some d) (owned : d.phase.owned? = some f) :
    .started j f d.key ∈ past ++ [e] := by
  have keep {c : Caller κ ν ε} (found : s.callers[j]? = some c)
      (owned : c.phase.owned? = some f) : .started j f c.key ∈ past ++ [e] :=
    List.mem_append_left _ (h.started j f c found owned)
  cases change with
  | called key =>
    rcases getElem?_call_cases s key hd with ⟨-, rfl⟩ | hd
    · cases owned
    · exact keep hd owned
  | started found phase free =>
    rcases getElem?_set_cases found hd with ⟨rfl, rfl⟩ | ⟨-, hd⟩
    · cases owned
      simp
    · exact keep hd owned
  | worked result found phase =>
    rcases getElem?_set_cases found hd with ⟨rfl, rfl⟩ | ⟨-, hd⟩
    · cases owned
      have hStarted := keep found (by rw [phase]; rfl)
      exact hStarted
    · exact keep hd owned
  | cleared found phase =>
    rcases getElem?_set_cases found hd with ⟨rfl, rfl⟩ | ⟨-, hd⟩
    · cases owned
      have hStarted := keep found (by rw [phase]; rfl)
      exact hStarted
    · exact keep hd owned
  | published found phase =>
    rcases getElem?_set_cases found hd with ⟨rfl, rfl⟩ | ⟨-, hd⟩
    · rw [owned?_ended] at owned
      cases owned
    · exact keep hd owned
  | left found | joined found | shared found | missed found =>
    rcases getElem?_set_cases found hd with ⟨rfl, rfl⟩ | ⟨-, hd⟩
    · cases owned
    · exact keep hd owned

/-- The course of a flight goes on as it was when a caller that does not own it takes a step. -/
theorem course_kept (h : Orderly past s) {i f : Nat} {c c' : Caller κ ν ε} {state : Flight ν}
    (found : s.callers[i]? = some c) (hEvent : e.flight? ≠ some f)
    (hOther : c.phase.isIdle = true ∨ ∃ g, c.phase.owned? = some g ∧ g ≠ f)
    (hState : s.flights[f]? = some state) :
    ∃ j d, (s.callers.set i c')[j]? = some d ∧
      Course j f d.key d.phase state ((past ++ [e]).filter (Event.isOf f)) := by
  obtain ⟨j, d, hFound, hCourse⟩ := h.course f state hState
  have hne : i ≠ j := by
    rintro rfl
    obtain rfl : c = d := Option.some.inj (found.symm.trans hFound)
    rcases hOther with hIdle | ⟨g, hOwned, hne⟩
    · rw [hCourse.isIdle_eq_false] at hIdle
      cases hIdle
    · exact hne (hCourse.flight_eq hOwned)
  refine ⟨j, d, ?_, ?_⟩
  · rw [List.getElem?_set_ne hne]
    exact hFound
  · rw [filter_other hEvent]
    exact hCourse

theorem course_of_step (h : Orderly past s) {i f g : Nat} {c c' : Caller κ ν ε}
    {next state : Flight ν} (found : s.callers[i]? = some c) (hEvent : e.flight? = some f)
    (hOwned : c.phase.owned? = some f) (hState : (s.flights.set f next)[g]? = some state)
    (hNext : ∀ events state, Course i f c.key c.phase state events →
      Course i f c'.key c'.phase next (events ++ [e])) :
    ∃ j d, (s.callers.set i c')[j]? = some d ∧
      Course j g d.key d.phase state ((past ++ [e]).filter (Event.isOf g)) := by
  by_cases hfg : f = g
  · subst hfg
    obtain ⟨before, hBefore, hCourse⟩ := h.course_of_owned found hOwned
    rw [List.getElem?_set_self (h.lt_of_owned found hOwned)] at hState
    obtain rfl := Option.some.inj hState
    refine ⟨i, c', List.getElem?_set_self (List.getElem?_eq_some_iff.mp found).1, ?_⟩
    rw [filter_own hEvent]
    exact hNext _ _ hCourse
  · rw [List.getElem?_set_ne hfg] at hState
    refine h.course_kept found ?_ (.inr ⟨f, hOwned, hfg⟩) hState
    rw [hEvent]
    exact fun heq => hfg (Option.some.inj heq)

theorem running_of_owned (h : Orderly past s) {i f : Nat} {c : Caller κ ν ε}
    (found : s.callers[i]? = some c) (hOwned : c.phase.owned? = some f) :
    s.flights[f]? = some .running := by
  obtain ⟨state, hState, hCourse⟩ := h.course_of_owned found hOwned
  rw [hState, hCourse.running_of_owned? hOwned]

theorem set_running (h : Orderly past s) {i f : Nat} {c : Caller κ ν ε}
    (found : s.callers[i]? = some c) (hOwned : c.phase.owned? = some f) :
    s.flights.set f .running = s.flights := by
  obtain ⟨hlt, hState⟩ := List.getElem?_eq_some_iff.mp (h.running_of_owned found hOwned)
  rw [← hState, List.set_getElem_self]

theorem course_step (h : Orderly past s) (change : Change s e t) (f : Nat) (state : Flight ν)
    (hState : t.flights[f]? = some state) :
    ∃ i c, t.callers[i]? = some c ∧
      Course i f c.key c.phase state ((past ++ [e]).filter (Event.isOf f)) := by
  cases change with
  | called key =>
    obtain ⟨i, c, hFound, hCourse⟩ := h.course f state hState
    refine ⟨i, c, ?_, ?_⟩
    · rw [call, List.getElem?_append_left (List.getElem?_eq_some_iff.mp hFound).1]
      exact hFound
    · rw [filter_other (by simp [Event.flight?])]
      exact hCourse
  | left found idle =>
    exact h.course_kept found (by simp [Event.flight?]) (.inl idle) hState
  | joined found phase | shared found phase | missed found phase =>
    exact h.course_kept found (by simp [Event.flight?]) (.inl (by rw [phase]; rfl)) hState
  | started found phase free =>
    by_cases hNew : f = s.flights.length
    · subst hNew
      obtain rfl : Flight.running = state := by simpa using hState
      refine ⟨_, _, List.getElem?_set_self (List.getElem?_eq_some_iff.mp found).1, ?_⟩
      rw [filter_own rfl, h.fresh _ (Nat.le_refl _)]
      exact .working
    · obtain ⟨hlt, -⟩ := List.getElem?_eq_some_iff.mp hState
      rw [List.length_append, List.length_singleton] at hlt
      rw [List.getElem?_append_left (by omega)] at hState
      refine h.course_kept found ?_ (.inl (by rw [phase]; rfl)) hState
      exact fun heq => hNew (Option.some.inj heq).symm
  | @worked i g c result found phase =>
    have hOwned : c.phase.owned? = some g := by rw [phase]; rfl
    rw [withPhase, ← h.set_running found hOwned] at hState
    refine h.course_of_step found rfl hOwned hState ?_
    intro events _ hCourse
    rw [phase] at hCourse
    rw [hCourse.of_working]
    exact .ending result
  | @cleared i g c result found phase =>
    have hOwned : c.phase.owned? = some g := by rw [phase]; rfl
    rw [withPhase, ← h.set_running found hOwned] at hState
    refine h.course_of_step found rfl hOwned hState ?_
    intro events _ hCourse
    rw [phase] at hCourse
    rw [hCourse.of_ending]
    exact .publishing result
  | @published i g c result found phase =>
    have hOwned : c.phase.owned? = some g := by rw [phase]; rfl
    refine h.course_of_step found rfl hOwned hState ?_
    intro events _ hCourse
    rw [phase] at hCourse
    rw [hCourse.of_publishing]
    exact .ended result

theorem lt_of_flight? (h : Orderly past s) (change : Change s e t) {f : Nat}
    (hEvent : e.flight? = some f) : f < t.flights.length := by
  cases change with
  | started found phase free =>
    cases hEvent
    simp
  | worked result found phase | cleared found phase =>
    cases hEvent
    exact h.lt_of_owned found (by rw [phase]; rfl)
  | published found phase =>
    cases hEvent
    simp only [withPhase, List.length_set]
    exact h.lt_of_owned found (by rw [phase]; rfl)
  | _ => cases hEvent

end Orderly

theorem Change.length_le {s t : SingleFlight κ ν ε} {e : Event κ ν ε} (change : Change s e t) :
    s.flights.length ≤ t.flights.length := by
  cases change <;> simp [withPhase, call]

namespace Orderly

variable {past : List (Event κ ν ε)} {s t : SingleFlight κ ν ε} {e : Event κ ν ε}

theorem fresh_step (h : Orderly past s) (change : Change s e t) (f : Nat)
    (hFresh : t.flights.length ≤ f) : (past ++ [e]).filter (Event.isOf f) = [] := by
  rw [filter_other]
  · exact h.fresh f (Nat.le_trans change.length_le hFresh)
  · intro hEvent
    exact Nat.not_lt_of_le hFresh (h.lt_of_flight? change hEvent)

theorem waited_step (h : Orderly past s) (change : Change s e t) (i f : Nat) (d : Caller κ ν ε)
    (hd : t.callers[i]? = some d) (phase : d.phase = .waiting f) : f < t.flights.length := by
  have keep {c : Caller κ ν ε} (found : s.callers[i]? = some c) (phase : c.phase = .waiting f) :
      f < t.flights.length :=
    Nat.lt_of_lt_of_le (h.waited i f c found phase) change.length_le
  cases change with
  | called key =>
    rcases getElem?_call_cases s key hd with ⟨-, rfl⟩ | hd
    · cases phase
    · exact keep hd phase
  | joined found _ inAir =>
    rcases getElem?_set_cases found hd with ⟨rfl, rfl⟩ | ⟨-, hd⟩
    · cases phase
      obtain ⟨j, c, hFound, -, hFlown⟩ := (h.inAir _ f).mp inAir
      exact h.lt_of_owned hFound (owned?_of_flown? hFlown)
    · exact keep hd phase
  | @published j g c result found =>
    rcases getElem?_set_cases found hd with ⟨rfl, rfl⟩ | ⟨-, hd⟩
    · cases result <;> cases phase
    · exact keep hd phase
  | left found | started found | worked _ found | cleared found | shared found | missed found =>
    rcases getElem?_set_cases found hd with ⟨rfl, rfl⟩ | ⟨-, hd⟩
    · cases phase
    · exact keep hd phase

end Orderly

omit [DecidableEq κ] in
theorem flies_set_iff {callers : List (Caller κ ν ε)} {i j f : Nat} {c c' : Caller κ ν ε} {key : κ}
    (found : callers[i]? = some c) :
    Flies (callers.set i c') j key f ↔
      i = j ∧ c'.key = key ∧ c'.phase.flown? = some f ∨ i ≠ j ∧ Flies callers j key f := by
  constructor
  · rintro ⟨d, hd, hKey, hFlown⟩
    rcases getElem?_set_cases found hd with ⟨rfl, rfl⟩ | ⟨hne, hd⟩
    · exact .inl ⟨rfl, hKey, hFlown⟩
    · exact .inr ⟨Ne.symm hne, d, hd, hKey, hFlown⟩
  · rintro (⟨rfl, hKey, hFlown⟩ | ⟨hne, d, hd, hKey, hFlown⟩)
    · exact ⟨c', List.getElem?_set_self (List.getElem?_eq_some_iff.mp found).1, hKey, hFlown⟩
    · exact ⟨d, by rw [List.getElem?_set_ne hne]; exact hd, hKey, hFlown⟩

omit [DecidableEq κ] in
theorem flies_set_congr {callers : List (Caller κ ν ε)} {i j f : Nat} {c c' : Caller κ ν ε}
    {key : κ} (found : callers[i]? = some c)
    (hSame : c'.key = key ∧ c'.phase.flown? = some f ↔ c.key = key ∧ c.phase.flown? = some f) :
    Flies (callers.set i c') j key f ↔ Flies callers j key f := by
  rw [flies_set_iff found, hSame]
  by_cases hij : i = j
  · subst hij
    simp [Flies, found]
  · simp [hij]

omit [DecidableEq κ] in
theorem flies_call_iff (s : SingleFlight κ ν ε) (key key' : κ) (j f : Nat) :
    Flies (s.call key).1.callers j key' f ↔ Flies s.callers j key' f := by
  constructor
  · rintro ⟨d, hd, hKey, hFlown⟩
    rcases getElem?_call_cases s key hd with ⟨-, rfl⟩ | hd
    · cases hFlown
    · exact ⟨d, hd, hKey, hFlown⟩
  · rintro ⟨d, hd, hKey, hFlown⟩
    refine ⟨d, ?_, hKey, hFlown⟩
    rw [call, List.getElem?_append_left (List.getElem?_eq_some_iff.mp hd).1]
    exact hd

namespace Orderly

variable {past : List (Event κ ν ε)} {s t : SingleFlight κ ν ε} {e : Event κ ν ε}

theorem get?_of_flown (h : Orderly past s) {i f : Nat} {c : Caller κ ν ε}
    (found : s.callers[i]? = some c) (hFlown : c.phase.flown? = some f) :
    s.inAir.get? c.key = some f :=
  (h.inAir _ _).mpr ⟨i, c, found, rfl, hFlown⟩

theorem flies_eq (h : Orderly past s) {i j f g : Nat} {key : κ} (hi : Flies s.callers i key f)
    (hj : Flies s.callers j key g) : i = j ∧ f = g := by
  obtain ⟨c, hc, rfl, hcFlown⟩ := hi
  obtain ⟨d, hd, hKey, hdFlown⟩ := hj
  have hSame := h.get?_of_flown hd hdFlown
  rw [hKey, h.get?_of_flown hc hcFlown] at hSame
  obtain rfl := Option.some.inj hSame
  exact ⟨h.owner_unique hc hd (owned?_of_flown? hcFlown) (owned?_of_flown? hdFlown), rfl⟩

theorem inAir_congr (h : Orderly past s) {i f : Nat} {c c' : Caller κ ν ε} {key : κ}
    (found : s.callers[i]? = some c)
    (hSame : c'.key = key ∧ c'.phase.flown? = some f ↔ c.key = key ∧ c.phase.flown? = some f) :
    s.inAir.get? key = some f ↔ ∃ j, Flies (s.callers.set i c') j key f :=
  (h.inAir key f).trans (exists_congr fun _ => (flies_set_congr found hSame).symm)

theorem inAir_step (h : Orderly past s) (change : Change s e t) (key : κ) (f : Nat) :
    t.inAir.get? key = some f ↔ ∃ i, Flies t.callers i key f := by
  cases change with
  | called key' =>
    exact (h.inAir key f).trans (exists_congr fun _ => (flies_call_iff _ _ _ _ _).symm)
  | left found idle =>
    refine h.inAir_congr found ?_
    generalize Caller.phase _ = phase at idle
    cases phase <;> first | rfl | cases idle
  | joined found phase | shared found phase | missed found phase | worked _ found phase =>
    refine h.inAir_congr found ?_
    rw [phase]
    rfl
  | @published i g c result found phase =>
    refine h.inAir_congr found ?_
    rw [phase]
    cases result <;> rfl
  | @started i c found phase free =>
    by_cases hKey : key = c.key
    · subst hKey
      rw [Keyed.get?_put_self]
      constructor
      · rintro ⟨⟩
        exact ⟨i, (flies_set_iff found).mpr (.inl ⟨rfl, rfl, rfl⟩)⟩
      · rintro ⟨j, hj⟩
        rcases (flies_set_iff found).mp hj with ⟨-, -, hFlown⟩ | ⟨-, hj⟩
        · exact hFlown
        · have hFound := (h.inAir c.key f).mpr ⟨j, hj⟩
          rw [free] at hFound
          cases hFound
    · rw [Keyed.get?_put_of_ne _ _ hKey]
      exact h.inAir_congr found (by simp [Ne.symm hKey])
  | @cleared i g c result found phase =>
    by_cases hKey : key = c.key
    · subst hKey
      rw [withPhase, Keyed.get?_erase_self]
      constructor
      · rintro ⟨⟩
      · rintro ⟨j, hj⟩
        rcases (flies_set_iff found).mp hj with ⟨-, -, ⟨⟩⟩ | ⟨hne, hj⟩
        have hi : Flies s.callers i c.key g := ⟨c, found, rfl, by rw [phase]; rfl⟩
        exact absurd (h.flies_eq hi hj).1 hne
    · rw [withPhase, Keyed.get?_erase_of_ne _ hKey]
      exact h.inAir_congr found (by simp [Ne.symm hKey])

end Orderly

theorem orderly_empty : Orderly ([] : List (Event κ ν ε)) empty where
  started i f c found := by cases found
  course f state hState := by cases hState
  fresh f _ := rfl
  waited i f c found := by cases found
  inAir key f := by simp [empty, Flies]

theorem Run.orderly {past : List (Event κ ν ε)} {s : SingleFlight κ ν ε} (h : Run past s) :
    Orderly past s := by
  refine h.induct orderly_empty ?_
  intro past s e t _ ih change
  exact {
    started := ih.started_step change
    course := ih.course_step change
    fresh := ih.fresh_step change
    waited := ih.waited_step change
    inAir := ih.inAir_step change }

namespace Orderly

variable {past : List (Event κ ν ε)} {s t : SingleFlight κ ν ε} {e : Event κ ν ε}

omit [DecidableEq κ] in
theorem mem_filter_cleared {i f : Nat} :
    (.cleared i f : Event κ ν ε) ∈ past.filter (Event.isOf f) ↔ .cleared i f ∈ past := by
  simp [Event.isOf, Event.flight?]

theorem course_of_started (h : Orderly past s) {i f : Nat} {key : κ}
    (hStarted : .started i f key ∈ past) :
    ∃ c state, s.callers[i]? = some c ∧ c.key = key ∧ s.flights[f]? = some state ∧
      Course i f key c.phase state (past.filter (Event.isOf f)) := by
  have hState := List.getElem?_eq_getElem (h.lt_of_started hStarted)
  obtain ⟨j, c, found, hCourse⟩ := h.course f _ hState
  obtain ⟨rfl, -, rfl⟩ := hCourse.owner_eq (mem_course hStarted)
  exact ⟨c, _, found, rfl, hState, hCourse⟩

/-- A key is in the air from the registration of an owner until its removal. -/
theorem inAir_iff (h : Orderly past s) (key : κ) (f : Nat) :
    s.inAir.get? key = some f ↔
      (∃ i, .started i f key ∈ past) ∧ ∀ i, .cleared i f ∉ past := by
  rw [h.inAir]
  constructor
  · rintro ⟨i, c, found, rfl, hFlown⟩
    obtain ⟨state, -, hCourse⟩ := h.course_of_owned found (owned?_of_flown? hFlown)
    refine ⟨⟨i, h.started i f c found (owned?_of_flown? hFlown)⟩, fun j hCleared => ?_⟩
    exact hCourse.flown?_iff.mp hFlown j (mem_filter_cleared.mpr hCleared)
  · rintro ⟨⟨i, hStarted⟩, hCleared⟩
    obtain ⟨c, state, found, hKey, -, hCourse⟩ := h.course_of_started hStarted
    exact ⟨i, c, found, hKey,
      hCourse.flown?_iff.mpr fun j hMem => hCleared j (mem_filter_cleared.mp hMem)⟩

theorem course_of_worked (h : Orderly past s) {i f : Nat} {result : Option (Except ε ν)}
    (hWorked : .worked i f result ∈ past) :
    ∃ c state, s.callers[i]? = some c ∧ s.flights[f]? = some state ∧
      Course i f c.key c.phase state (past.filter (Event.isOf f)) ∧
      (c.phase = .ending f result ∨ c.phase = .publishing f result ∨
        state = .ofResult result) := by
  have hMem : .worked i f result ∈ past.filter (Event.isOf f) :=
    List.mem_filter.mpr ⟨hWorked, by simp [Event.isOf, Event.flight?]⟩
  have hlt : f < s.flights.length := by
    refine Nat.lt_of_not_le fun hFresh => ?_
    rw [h.fresh f hFresh] at hMem
    cases hMem
  have hState := List.getElem?_eq_getElem hlt
  obtain ⟨j, c, found, hCourse⟩ := h.course f _ hState
  obtain ⟨rfl, hAfter⟩ := hCourse.of_worked hMem
  exact ⟨c, _, found, hState, hCourse, hAfter⟩

theorem over_step (h : Orderly past s) (change : Change s e t) {f : Nat} {state : Flight ν}
    (hState : s.flights[f]? = some state) (hOver : state ≠ .running) :
    t.flights[f]? = some state := by
  cases change with
  | started found phase free =>
    rw [List.getElem?_append_left (List.getElem?_eq_some_iff.mp hState).1]
    exact hState
  | @published i g c result found phase =>
    have hne : g ≠ f := by
      rintro rfl
      have hRunning := h.running_of_owned (f := g) found (by rw [phase]; rfl)
      exact hOver (Option.some.inj (hState.symm.trans hRunning))
    rw [withPhase, List.getElem?_set_ne hne]
    exact hState
  | _ => exact hState

theorem cleared_of_not_running (h : Orderly past s) {f : Nat} {state : Flight ν}
    (hState : s.flights[f]? = some state) (hOver : state ≠ .running) :
    ∃ i, .cleared i f ∈ past := by
  obtain ⟨i, c, -, hCourse⟩ := h.course f state hState
  exact ⟨i, mem_filter_cleared.mp (hCourse.cleared_of_over hOver)⟩

theorem owned_of_running (h : Orderly past s) {f : Nat} (hState : s.flights[f]? = some .running) :
    ∃ (i : Nat) (c : Caller κ ν ε), s.callers[i]? = some c ∧ c.phase.owned? = some f := by
  obtain ⟨i, c, found, hCourse⟩ := h.course f _ hState
  exact ⟨i, c, found, hCourse.owned?_of_running⟩

end Orderly

end Enrollment.SingleFlight
