import Enrollment.Proofs.SingleFlight.Story

/-! # Agreement

Whoever joins a flight that lands returns its value and does no work. A value comes from the
caller's own work or from a flight of its key that was in the air when it was joined, and an error
from the caller's own work only.
-/

namespace Enrollment.SingleFlight

variable {κ ν ε : Type} [DecidableEq κ]

namespace Event

/-- The outcome of a flight that somebody who waited for it has seen. -/
def outcome? : Event κ ν ε → Option (Nat × Flight ν)
  | shared _ f value => some (f, .landed value)
  | missed _ f => some (f, .failed)
  | called _ _ | started _ _ _ | joined _ _ | worked _ _ _ | cleared _ _ | published _ _ _
  | left _ => none

def isCallOf (key : κ) : Event κ ν ε → Bool
  | called _ key' => key' = key
  | started _ _ _ | joined _ _ | worked _ _ _ | cleared _ _ | published _ _ _ | shared _ _ _
  | missed _ _ | left _ => false

def isStartOf (key : κ) : Event κ ν ε → Bool
  | started _ _ key' => key' = key
  | called _ _ | joined _ _ | worked _ _ _ | cleared _ _ | published _ _ _ | shared _ _ _
  | missed _ _ | left _ => false

end Event

theorem Run.flight_of_outcome {past : List (Event κ ν ε)} {s : SingleFlight κ ν ε}
    (h : Run past s) : ∀ {e : Event κ ν ε} {f : Nat} {state : Flight ν}, e ∈ past →
      e.outcome? = some (f, state) → s.flights[f]? = some state ∧ state ≠ .running := by
  refine h.induct (motive := fun past s => ∀ {e f state}, e ∈ past →
    e.outcome? = some (f, state) → s.flights[f]? = some state ∧ state ≠ .running) ?_ ?_
  · intro e f state hMem
    cases hMem
  · intro past s e t run ih change d f state hMem hOutcome
    rcases List.mem_append.mp hMem with hOld | hNew
    · obtain ⟨hState, hOver⟩ := ih hOld hOutcome
      exact ⟨run.orderly.over_step change hState hOver, hOver⟩
    · obtain rfl := List.mem_singleton.mp hNew
      cases change with
      | shared found phase landed =>
        cases hOutcome
        exact ⟨landed, by simp⟩
      | missed found phase failed =>
        cases hOutcome
        exact ⟨failed, by simp⟩
      | _ => cases hOutcome

/-- How many of the callers of a key have done the work. -/
def worksOf (s : SingleFlight κ ν ε) (key : κ) : Nat :=
  s.callers.countP fun c => c.key = key && c.runs = 1

def callsOf (s : SingleFlight κ ν ε) (key : κ) : Nat := s.callers.countP fun c => c.key = key

omit [DecidableEq κ] in
theorem countP_set_add {callers : List (Caller κ ν ε)} {i : Nat} {c : Caller κ ν ε}
    (found : callers[i]? = some c) (c' : Caller κ ν ε) (p : Caller κ ν ε → Bool) :
    (callers.set i c').countP p + (if p c then 1 else 0) =
      callers.countP p + (if p c' then 1 else 0) := by
  obtain ⟨hlt, hGet⟩ := List.getElem?_eq_some_iff.mp found
  rw [List.countP_set hlt, hGet]
  by_cases hp : p c = true
  · have hPos : 0 < callers.countP p := List.countP_pos_iff.mpr ⟨c, hGet ▸ List.getElem_mem hlt, hp⟩
    rw [if_pos hp]
    omega
  · rw [if_neg hp]
    omega

omit [DecidableEq κ] in
theorem countP_set_eq {callers : List (Caller κ ν ε)} {i : Nat} {c c' : Caller κ ν ε}
    (found : callers[i]? = some c) {p : Caller κ ν ε → Bool} (hSame : p c' = p c) :
    (callers.set i c').countP p = callers.countP p := by
  have hAdd := countP_set_add found c' p
  rw [hSame] at hAdd
  exact Nat.add_right_cancel hAdd

omit [DecidableEq κ] in
theorem countP_concat_of_not {past : List (Event κ ν ε)} {e : Event κ ν ε}
    {p : Event κ ν ε → Bool} (h : p e = false) : (past ++ [e]).countP p = past.countP p := by
  simp [List.countP_append, h]

theorem Run.callsOf_eq {past : List (Event κ ν ε)} {s : SingleFlight κ ν ε} (h : Run past s)
    (key : κ) : past.countP (Event.isCallOf key) = s.callsOf key := by
  refine h.induct (motive := fun past s => past.countP (Event.isCallOf key) = s.callsOf key)
    rfl ?_
  intro past s e t _ ih change
  cases change with
  | called key' => simp [ih, callsOf, call, Event.isCallOf]
  | left found | joined found | started found | worked _ found | cleared found | published found
  | shared found | missed found =>
    rw [countP_concat_of_not rfl, ih]
    refine (countP_set_eq found (p := fun c => c.key = key) ?_).symm
    rfl

theorem Run.worksOf_eq {past : List (Event κ ν ε)} {s : SingleFlight κ ν ε} (h : Run past s)
    (key : κ) : past.countP (Event.isStartOf key) = s.worksOf key := by
  refine h.induct (motive := fun past s => past.countP (Event.isStartOf key) = s.worksOf key)
    rfl ?_
  intro past s e t run ih change
  cases change with
  | called key' => simp [ih, worksOf, call, Event.isStartOf]
  | left found | joined found | worked _ found | cleared found | published found | shared found
  | missed found =>
    rw [countP_concat_of_not rfl, ih]
    refine (countP_set_eq found (p := fun c => c.key = key && c.runs = 1) ?_).symm
    rfl
  | @started i c found phase =>
    have hRuns : c.runs = 0 := (run.told.story i c found).runs_of_idle (by rw [phase]; rfl)
    have hAdd := countP_set_add found
      { c with runs := c.runs + 1, phase := .working s.flights.length }
      fun c => c.key = key && c.runs = 1
    simp only [hRuns, Nat.zero_add, decide_true, Bool.and_true, Nat.reduceEqDiff, decide_false,
      Bool.and_false, Bool.false_eq_true, if_false, Nat.add_zero] at hAdd
    rw [List.countP_append, ih, worksOf, worksOf, hRuns, Nat.zero_add, List.countP_singleton]
    exact hAdd.symm

theorem worksOf_le (s : SingleFlight κ ν ε) (key : κ) : s.worksOf key ≤ s.callsOf key := by
  refine List.countP_mono_left fun c _ hWorked => ?_
  rw [Bool.and_eq_true] at hWorked
  exact hWorked.1

namespace Run

variable {past : List (Event κ ν ε)} {s : SingleFlight κ ν ε} {i j f : Nat} {c : Caller κ ν ε}
  {value : ν}

omit [DecidableEq κ] in
theorem mem_own {e : Event κ ν ε} : e ∈ past.filter (Event.isBy i) ↔ e ∈ past ∧ e.caller = i := by
  simp [Event.isBy]

theorem runs_eq (h : Run past s) (found : s.callers[i]? = some c) :
    c.runs = (past.filter (Event.isBy i)).countP Event.isStart :=
  (h.told.story i c found).runs_eq_countP

theorem found_of_mem (h : Run past s) {e : Event κ ν ε} (hMem : e ∈ past) :
    ∃ c : Caller κ ν ε, s.callers[e.caller]? = some c := by
  have hlt : e.caller < s.callers.length := by
    refine Nat.lt_of_not_le fun hLength => ?_
    have hOwn := mem_own.mpr ⟨hMem, rfl⟩
    rw [h.told.unborn _ hLength] at hOwn
    cases hOwn
  exact ⟨_, List.getElem?_eq_getElem hlt⟩

theorem not_started_of_shared (h : Run past s) (hShared : .shared i f value ∈ past) (g : Nat)
    (key : κ) : .started i g key ∉ past := by
  intro hStarted
  obtain ⟨c, found⟩ := h.found_of_mem hShared
  obtain ⟨hRuns, -⟩ := (h.told.story i c found).of_shared_mem (mem_own.mpr ⟨hShared, rfl⟩)
  rw [h.runs_eq found, List.countP_eq_zero] at hRuns
  exact hRuns _ (mem_own.mpr ⟨hStarted, rfl⟩) rfl

theorem worked_of_shared (h : Run past s) (hShared : .shared i f value ∈ past) :
    ∃ (j : Nat) (key : κ), .started j f key ∈ past ∧ .worked j f (some (.ok value)) ∈ past := by
  obtain ⟨hState, -⟩ := h.flight_of_outcome hShared rfl
  obtain ⟨j, c, -, hCourse⟩ := h.orderly.course f _ hState
  exact ⟨j, c.key, (List.mem_filter.mp hCourse.started_mem).1,
    (List.mem_filter.mp hCourse.worked_of_landed).1⟩

theorem started_unique (h : Run past s) {key key' : κ} (hi : .started i f key ∈ past)
    (hj : .started j f key' ∈ past) : j = i ∧ key' = key := by
  obtain ⟨c, state, -, -, -, hCourse⟩ := h.orderly.course_of_started hi
  obtain ⟨hOwner, -, hKey⟩ := hCourse.owner_eq (Orderly.mem_course hj)
  exact ⟨hOwner, hKey⟩

theorem key_eq (h : Run past s) (found : s.callers[i]? = some c) {key : κ}
    (hCalled : .called i key ∈ past) : key = c.key :=
  (h.told.story i c found).key_eq (mem_own.mpr ⟨hCalled, rfl⟩)

theorem joined_inAir (h : Run past s) {before after : List (Event κ ν ε)}
    (hPast : past = before ++ .joined i f :: after) (found : s.callers[i]? = some c) :
    .called i c.key ∈ before ∧ (∃ j, .started j f c.key ∈ before) ∧
      ∀ j, .cleared j f ∉ before := by
  obtain ⟨t, u, run, change⟩ := h.change_at hPast
  cases change with
  | @joined _ _ d foundThen phase inAir =>
    have hCalled : .called i d.key ∈ before :=
      (mem_own.mp (run.told.story i d foundThen).called_mem).1
    have hKey : d.key = c.key := by
      refine h.key_eq found ?_
      rw [hPast]
      exact List.mem_append_left _ hCalled
    rw [hKey] at hCalled inAir
    obtain ⟨hStarted, hCleared⟩ := (run.orderly.inAir_iff _ _).mp inAir
    exact ⟨hCalled, hStarted, hCleared⟩

/-- What a caller returns is the result of work on its key, its own or that of another. -/
theorem worked_of_returned (h : Run past s) (found : s.callers[i]? = some c)
    {result : Except ε ν} (phase : c.phase = .returned result) :
    ∃ j f, .started j f c.key ∈ past ∧ .worked j f (some result) ∈ past := by
  have hStory := h.told.story i c found
  rw [phase] at hStory
  rcases hStory.of_returned with ⟨f, hStarted, hWorked⟩ | ⟨f, value, rfl, hJoined, hShared⟩
  · exact ⟨i, f, (mem_own.mp hStarted).1, (mem_own.mp hWorked).1⟩
  · obtain ⟨before, after, hPast⟩ := List.append_of_mem (mem_own.mp hJoined).1
    obtain ⟨-, ⟨j, hStarted⟩, -⟩ := h.joined_inAir hPast found
    have hStartedPast : .started j f c.key ∈ past := by
      rw [hPast]
      exact List.mem_append_left _ hStarted
    obtain ⟨k, key, hOwner, hWorked⟩ := h.worked_of_shared (mem_own.mp hShared).1
    obtain ⟨rfl, -⟩ := h.started_unique hStartedPast hOwner
    exact ⟨k, f, hStartedPast, hWorked⟩

theorem not_shared_before_joined (h : Run past s) {before after : List (Event κ ν ε)}
    (hPast : past = before ++ .joined i f :: after) : .shared i f value ∉ before := by
  intro hShared
  obtain ⟨t, u, run, change⟩ := h.change_at hPast
  cases change with
  | @joined _ _ d found phase inAir =>
    have hOwn := mem_own.mpr ⟨hShared, rfl⟩
    obtain ⟨-, hReturned⟩ := (run.told.story i d found).of_shared_mem hOwn
    rw [phase] at hReturned
    cases hReturned

theorem phase_of_joined (h : Run past s) (hJoined : .joined i f ∈ past)
    (hWorked : .worked j f (some (.ok value)) ∈ past) (found : s.callers[i]? = some c) :
    c.runs = 0 ∧
      (c.phase = .waiting f ∨ c.phase = .returned (.ok value) ∨ c.phase = .dropped) := by
  have hStory := h.told.story i c found
  obtain ⟨d, state, -, hState, hCourse, hAfter⟩ := h.orderly.course_of_worked hWorked
  have hOutcome {e : Event κ ν ε} {seen : Flight ν} (hMem : e ∈ past)
      (hSeen : e.outcome? = some (f, seen)) : seen = .landed value := by
    obtain ⟨hOver, hNot⟩ := h.flight_of_outcome hMem hSeen
    obtain rfl : seen = state := Option.some.inj (hOver.symm.trans hState)
    rcases hAfter with hPhase | hPhase | rfl
    · exact absurd (hCourse.running_of_owned? (g := f) (by rw [hPhase]; rfl)) hNot
    · exact absurd (hCourse.running_of_owned? (g := f) (by rw [hPhase]; rfl)) hNot
    · rfl
  rcases hStory.of_joined_mem (mem_own.mpr ⟨hJoined, rfl⟩) with
    ⟨hRuns, hPhase⟩ | hMissed | ⟨seen, hShared⟩
  · exact ⟨hRuns, hPhase.imp_right .inr⟩
  · cases hOutcome (mem_own.mp hMissed).1 rfl
  · cases hOutcome (mem_own.mp hShared).1 rfl
    obtain ⟨hRuns, hPhase⟩ := hStory.of_shared_mem hShared
    exact ⟨hRuns, .inr (.inl hPhase)⟩

theorem look (h : Run past s) (found : s.callers[i]? = some c) (phase : c.phase = .waiting f)
    (hLanded : s.flights[f]? = some (.landed value)) :
    ∃ t, Run (past ++ [.shared i f value]) t ∧
      t.phase? i = some (.returned (.ok value)) := by
  refine ⟨s.withPhase i c (.returned (.ok value)), .move (.step i .look) h ?_ ?_, ?_⟩
  · simp [event?, found, eventOf?, phase, hLanded]
  · simp [move?, step?, found, stepOf?, phase, hLanded]
  · rw [phase?, withPhase, List.getElem?_set_self (List.getElem?_eq_some_iff.mp found).1]
    rfl

theorem publish_look (h : Run past s) {d : Caller κ ν ε} (found : s.callers[i]? = some c)
    (phase : c.phase = .waiting f) (foundOwner : s.callers[j]? = some d)
    (hPublishing : d.phase = .publishing f (some (.ok value))) :
    ∃ t, Run (past ++ [.published j f (some (.ok value)), .shared i f value]) t ∧
      t.phase? i = some (.returned (.ok value)) := by
  have hne : j ≠ i := by
    rintro rfl
    obtain rfl := Option.some.inj (found.symm.trans foundOwner)
    rw [phase] at hPublishing
    cases hPublishing
  have hlt : f < s.flights.length :=
    h.orderly.lt_of_owned foundOwner (by rw [hPublishing]; rfl)
  have hPublished : s.event? (.step j .publish) =
      some (.published j f (some (.ok value))) := by
    simp [event?, foundOwner, eventOf?, hPublishing]
  rw [List.append_cons]
  refine look (c := c) (.move _ h hPublished (step?_publish foundOwner hPublishing)) ?_ phase ?_
  · rw [withPhase, List.getElem?_set_ne hne]
    exact found
  · exact List.getElem?_set_self hlt

theorem clear_publish_look (h : Run past s) {d : Caller κ ν ε} (found : s.callers[i]? = some c)
    (phase : c.phase = .waiting f) (foundOwner : s.callers[j]? = some d)
    (hEnding : d.phase = .ending f (some (.ok value))) :
    ∃ t, Run (past ++ [.cleared j f, .published j f (some (.ok value)), .shared i f value]) t ∧
      t.phase? i = some (.returned (.ok value)) := by
  have hne : j ≠ i := by
    rintro rfl
    obtain rfl := Option.some.inj (found.symm.trans foundOwner)
    rw [phase] at hEnding
    cases hEnding
  have hCleared : s.event? (.step j .clear) = some (.cleared j f) := by
    simp [event?, foundOwner, eventOf?, hEnding]
  rw [List.append_cons]
  refine publish_look (c := c) (.move _ h hCleared (step?_clear foundOwner hEnding)) ?_ phase
    (List.getElem?_set_self (List.getElem?_eq_some_iff.mp foundOwner).1) rfl
  rw [withPhase, List.getElem?_set_ne hne]
  exact found

end Run

/-- What callers return agrees with the work that was done. -/
structure Agreement (past : List (Event κ ν ε)) (s : SingleFlight κ ν ε) : Prop where
  runs : ∀ (i : Nat) (c : Caller κ ν ε), s.callers[i]? = some c →
    c.runs = (past.filter (Event.isBy i)).countP Event.isStart ∧ c.runs ≤ 1
  no_work_shared : ∀ i f value, .shared i f value ∈ past → ∀ g key, .started i g key ∉ past
  error_own : ∀ (i : Nat) (c : Caller κ ν ε) (e : ε), s.callers[i]? = some c →
    c.phase = .returned (.error e) →
    ∃ f, .started i f c.key ∈ past ∧ .worked i f (some (.error e)) ∈ past
  /-- The flight of a shared value was in the air when it was joined, and so when the call came. -/
  value : ∀ (i : Nat) (c : Caller κ ν ε) (value : ν), s.callers[i]? = some c →
    c.phase = .returned (.ok value) →
    (∃ f, .started i f c.key ∈ past ∧ .worked i f (some (.ok value)) ∈ past) ∨
      ∃ f j before after, past = before ++ .joined i f :: after ∧ .called i c.key ∈ before ∧
        .started j f c.key ∈ before ∧ (∀ k, .cleared k f ∉ before) ∧
        .worked j f (some (.ok value)) ∈ past ∧ .shared i f value ∈ after
  landed : ∀ (i j f : Nat) (c : Caller κ ν ε) (value : ν), .joined i f ∈ past →
    .worked j f (some (.ok value)) ∈ past → s.callers[i]? = some c →
    c.runs = 0 ∧
      (c.phase = .waiting f ∨ c.phase = .returned (.ok value) ∨ c.phase = .dropped)
  /-- Who still waits for a flight whose work went well needs only the last steps of its owner to
  return the value. -/
  settles : ∀ (i j f : Nat) (c : Caller κ ν ε) (value : ν), s.callers[i]? = some c →
    c.phase = .waiting f → .worked j f (some (.ok value)) ∈ past →
    ∃ later t, later <:+ [.cleared j f, .published j f (some (.ok value)), .shared i f value] ∧
      Run (past ++ later) t ∧ t.phase? i = some (.returned (.ok value))
  works : ∀ key, past.countP (Event.isStartOf key) ≤ past.countP (Event.isCallOf key)

theorem Run.agreement {past : List (Event κ ν ε)} {s : SingleFlight κ ν ε} (h : Run past s) :
    Agreement past s where
  runs i c found := ⟨h.runs_eq found, (h.told.story i c found).runs_le_one⟩
  no_work_shared i f value hShared g key := h.not_started_of_shared hShared g key
  error_own i c e found phase := by
    have hStory := h.told.story i c found
    rw [phase] at hStory
    rcases hStory.of_returned with ⟨f, hStarted, hWorked⟩ | ⟨f, value, hResult, -⟩
    · exact ⟨f, (mem_own.mp hStarted).1, (mem_own.mp hWorked).1⟩
    · cases hResult
  value i c value found phase := by
    have hStory := h.told.story i c found
    rw [phase] at hStory
    rcases hStory.of_returned with ⟨f, hStarted, hWorked⟩ | ⟨f, seen, hResult, hJoined, hShared⟩
    · exact .inl ⟨f, (mem_own.mp hStarted).1, (mem_own.mp hWorked).1⟩
    · cases hResult
      have hShared := (mem_own.mp hShared).1
      obtain ⟨before, after, hPast⟩ := List.append_of_mem (mem_own.mp hJoined).1
      obtain ⟨hCalled, ⟨j, hStarted⟩, hCleared⟩ := h.joined_inAir hPast found
      have hStartedPast : .started j f c.key ∈ past := by
        rw [hPast]
        exact List.mem_append_left _ hStarted
      obtain ⟨k, key, hOwner, hWorked⟩ := h.worked_of_shared hShared
      obtain ⟨rfl, -⟩ := h.started_unique hStartedPast hOwner
      refine .inr ⟨f, k, before, after, hPast, hCalled, hStarted, hCleared, hWorked, ?_⟩
      rw [hPast] at hShared
      rcases List.mem_append.mp hShared with hBefore | hAfter
      · exact absurd hBefore (h.not_shared_before_joined hPast)
      · simpa using hAfter
  landed i j f c value hJoined hWorked found := h.phase_of_joined hJoined hWorked found
  settles i j f c value found phase hWorked := by
    obtain ⟨d, state, foundOwner, hState, -, hEnding | hPublishing | rfl⟩ :=
      h.orderly.course_of_worked hWorked
    · obtain ⟨t, run, hReturned⟩ := h.clear_publish_look found phase foundOwner hEnding
      exact ⟨_, t, List.suffix_refl _, run, hReturned⟩
    · obtain ⟨t, run, hReturned⟩ := h.publish_look found phase foundOwner hPublishing
      exact ⟨_, t, List.suffix_cons _ _, run, hReturned⟩
    · obtain ⟨t, run, hReturned⟩ := h.look found phase hState
      exact ⟨_, t, (List.suffix_cons _ _).trans (List.suffix_cons _ _), run, hReturned⟩
  works key := by
    rw [h.worksOf_eq, h.callsOf_eq]
    exact s.worksOf_le key

/-- A caller joins a flight that fails, then one that lands, and returns the value of the second
without having done any work. -/
theorem agreement_of_second_flight :
    ∃ past, ∃ s : SingleFlight Nat Nat String, Run past s ∧
      s.phase? 1 = some (.returned (.ok 5)) ∧ past[9]? = some (.missed 1 0) ∧
      past[14]? = some (.shared 1 1 5) ∧ Agreement past s := by
  obtain ⟨past, s, played, hPhase, hMissed, hShared⟩ :
      ∃ past, ∃ s : SingleFlight Nat Nat String,
        empty.play? [.call 7, .call 7, .step 0 .register, .step 1 .register, .call 7,
          .step 0 (.finish (.error "down")), .step 0 .clear, .step 2 .register, .step 0 .publish,
          .step 1 .look, .step 1 .register, .step 2 (.finish (.ok 5)), .step 2 .clear,
          .step 2 .publish, .step 1 .look] = some (past, s) ∧
        s.phase? 1 = some (.returned (.ok 5)) ∧ past[9]? = some (.missed 1 0) ∧
        past[14]? = some (.shared 1 1 5) := ⟨_, _, rfl, rfl, rfl, rfl⟩
  have run := Run.append .start played
  rw [List.nil_append] at run
  exact ⟨past, s, run, hPhase, hMissed, hShared, Run.agreement run⟩

end Enrollment.SingleFlight
